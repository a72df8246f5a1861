import Conclave.Bytes.LittleEndian

/-!
# SHA-512

The hash function of the signature scheme, on byte strings of any length. A message is followed by
the byte `0x80`, by zeros and by its length in bits as a 16-byte number, so that it fills blocks of
128 bytes; each block is compressed into a state of eight words.

The 80 words of the message schedule are kept as a window of the next 16, which moves on by one
word in each round.
-/

namespace Conclave
namespace Sha512

/-- Rotation to the right. -/
@[inline] def rotate (w n : UInt64) : UInt64 :=
  (w >>> n) ||| (w <<< (64 - n))

/-- The constants of the 80 rounds. -/
def roundConstants : List UInt64 :=
  [0x428A2F98D728AE22, 0x7137449123EF65CD, 0xB5C0FBCFEC4D3B2F, 0xE9B5DBA58189DBBC,
   0x3956C25BF348B538, 0x59F111F1B605D019, 0x923F82A4AF194F9B, 0xAB1C5ED5DA6D8118,
   0xD807AA98A3030242, 0x12835B0145706FBE, 0x243185BE4EE4B28C, 0x550C7DC3D5FFB4E2,
   0x72BE5D74F27B896F, 0x80DEB1FE3B1696B1, 0x9BDC06A725C71235, 0xC19BF174CF692694,
   0xE49B69C19EF14AD2, 0xEFBE4786384F25E3, 0x0FC19DC68B8CD5B5, 0x240CA1CC77AC9C65,
   0x2DE92C6F592B0275, 0x4A7484AA6EA6E483, 0x5CB0A9DCBD41FBD4, 0x76F988DA831153B5,
   0x983E5152EE66DFAB, 0xA831C66D2DB43210, 0xB00327C898FB213F, 0xBF597FC7BEEF0EE4,
   0xC6E00BF33DA88FC2, 0xD5A79147930AA725, 0x06CA6351E003826F, 0x142929670A0E6E70,
   0x27B70A8546D22FFC, 0x2E1B21385C26C926, 0x4D2C6DFC5AC42AED, 0x53380D139D95B3DF,
   0x650A73548BAF63DE, 0x766A0ABB3C77B2A8, 0x81C2C92E47EDAEE6, 0x92722C851482353B,
   0xA2BFE8A14CF10364, 0xA81A664BBC423001, 0xC24B8B70D0F89791, 0xC76C51A30654BE30,
   0xD192E819D6EF5218, 0xD69906245565A910, 0xF40E35855771202A, 0x106AA07032BBD1B8,
   0x19A4C116B8D2D0C8, 0x1E376C085141AB53, 0x2748774CDF8EEB99, 0x34B0BCB5E19B48A8,
   0x391C0CB3C5C95A63, 0x4ED8AA4AE3418ACB, 0x5B9CCA4F7763E373, 0x682E6FF3D6B2B8A3,
   0x748F82EE5DEFB2FC, 0x78A5636F43172F60, 0x84C87814A1F0AB72, 0x8CC702081A6439EC,
   0x90BEFFFA23631E28, 0xA4506CEBDE82BDE9, 0xBEF9A3F7B2C67915, 0xC67178F2E372532B,
   0xCA273ECEEA26619C, 0xD186B8C721C0C207, 0xEADA7DD6CDE0EB1E, 0xF57D4F7FEE6ED178,
   0x06F067AA72176FBA, 0x0A637DC5A2C898A6, 0x113F9804BEF90DAE, 0x1B710B35131C471B,
   0x28DB77F523047D84, 0x32CAAB7B40C72493, 0x3C9EBE0A15C9BEBC, 0x431D67C49C100D4C,
   0x4CC5D4BECB3E42B6, 0x597F299CFC657E2A, 0x5FCB6FAB3AD6FAEC, 0x6C44198C4A475817]

/-- The chaining state. -/
structure State where
  a : UInt64
  b : UInt64
  c : UInt64
  d : UInt64
  e : UInt64
  f : UInt64
  g : UInt64
  h : UInt64

/-- The state before the first block. -/
def State.initial : State :=
  ⟨0x6A09E667F3BCC908, 0xBB67AE8584CAA73B, 0x3C6EF372FE94F82B, 0xA54FF53A5F1D36F1,
    0x510E527FADE682D1, 0x9B05688C2B3E6C1F, 0x1F83D9ABFB41BD6B, 0x5BE0CD19137E2179⟩

/-- The rounds with the given constants, on a window of the message schedule and a state. -/
def rounds : List UInt64 →
    UInt64 → UInt64 → UInt64 → UInt64 → UInt64 → UInt64 → UInt64 → UInt64 →
    UInt64 → UInt64 → UInt64 → UInt64 → UInt64 → UInt64 → UInt64 → UInt64 →
    UInt64 → UInt64 → UInt64 → UInt64 → UInt64 → UInt64 → UInt64 → UInt64 → State
  | [], _, _, _, _, _, _, _, _, _, _, _, _, _, _, _, _, a, b, c, d, e, f, g, h =>
    ⟨a, b, c, d, e, f, g, h⟩
  | k :: rest, w0, w1, w2, w3, w4, w5, w6, w7, w8, w9, w10, w11, w12, w13, w14, w15,
    a, b, c, d, e, f, g, h =>
    let choice := (e &&& f) ^^^ (~~~e &&& g)
    let majority := (a &&& b) ^^^ (a &&& c) ^^^ (b &&& c)
    let t := h + (rotate e 14 ^^^ rotate e 18 ^^^ rotate e 41) + choice + k + w0
    let u := (rotate a 28 ^^^ rotate a 34 ^^^ rotate a 39) + majority
    let w16 := (rotate w14 19 ^^^ rotate w14 61 ^^^ (w14 >>> 6)) + w9 +
      (rotate w1 1 ^^^ rotate w1 8 ^^^ (w1 >>> 7)) + w0
    rounds rest w1 w2 w3 w4 w5 w6 w7 w8 w9 w10 w11 w12 w13 w14 w15 w16
      (t + u) a b c (d + t) e f g

/-- The word whose eight bytes, most significant first, start at position `i`. -/
def wordAt (b : ByteArray) (i : Nat) : UInt64 :=
  let byte (j : Nat) : UInt64 := (LittleEndian.byteAt b (i + j)).toUInt64
  256 * (256 * (256 * (256 * (256 * (256 * (256 * byte 0 + byte 1) + byte 2) + byte 3) +
    byte 4) + byte 5) + byte 6) + byte 7

/-- The state after the block that starts at position `i`. -/
def compress (s : State) (b : ByteArray) (i : Nat) : State :=
  let word (j : Nat) : UInt64 := wordAt b (i + 8 * j)
  let t := rounds roundConstants (word 0) (word 1) (word 2) (word 3) (word 4) (word 5) (word 6)
    (word 7) (word 8) (word 9) (word 10) (word 11) (word 12) (word 13) (word 14) (word 15)
    s.a s.b s.c s.d s.e s.f s.g s.h
  ⟨s.a + t.a, s.b + t.b, s.c + t.c, s.d + t.d, s.e + t.e, s.f + t.f, s.g + t.g, s.h + t.h⟩

/-- The `n` bytes of a number, most significant first. -/
def bigEndian : Nat → Nat → List UInt8
  | 0, _ => []
  | n + 1, k => UInt8.ofNat (k / Nat.pow 256 n) :: bigEndian n k

/-- What follows a message of the given length. -/
def padding (size : Nat) : List UInt8 :=
  0x80 :: List.replicate ((239 - size % 128) % 128) 0 ++ bigEndian 16 (8 * size)

/-- The eight bytes of a word, most significant first, appended to a byte string. -/
def pushWord (b : ByteArray) (w : UInt64) : ByteArray :=
  (bigEndian 8 w.toNat).foldl ByteArray.push b

/-- The 64 bytes of the hash of a message. -/
def hash (message : ByteArray) : ByteArray :=
  let padded := (padding message.size).foldl ByteArray.push message
  let s := (List.range (padded.size / 128)).foldl (fun s i => compress s padded (128 * i))
    State.initial
  [s.a, s.b, s.c, s.d, s.e, s.f, s.g, s.h].foldl pushWord ByteArray.empty

end Sha512
end Conclave
