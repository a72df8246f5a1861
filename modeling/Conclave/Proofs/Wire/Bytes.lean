import Conclave.Bytes.LittleEndian
import Conclave.Digest
import Mathlib.Data.Nat.Notation

/-!
# Words and their bytes

Words are written and read least significant byte first. Reading undoes writing, and writing undoes
reading: the bytes at a position are those of the word that is read there.

* `LittleEndian.natAt` is the number that bytes make, of any width; `LittleEndian.natAt_eq_iff` is
  the statement about it that those about words follow from;
* `LittleEndian.uint32At_eq_iff`, `LittleEndian.uint64At_eq_iff` and `Digest.ofBytesAt_eq_iff` say
  so of words and of digests.
-/

namespace Conclave
namespace LittleEndian

variable {b : ByteArray} {i k n : ℕ}

theorem byteAt_of_lt (h : i < b.size) : byteAt b i = b[i] := dif_pos h

/-- Byte strings are equal if they have the same size and the same bytes. -/
theorem ext_byteAt {a b : ByteArray} (hsize : a.size = b.size)
    (h : ∀ k < a.size, byteAt a k = byteAt b k) : a = b := by
  refine ByteArray.ext_getElem hsize fun k hk hk' => ?_
  have := h k hk
  rwa [byteAt_of_lt hk, byteAt_of_lt hk'] at this

theorem byteAt_extract (hk : k < n) (hn : i + n ≤ b.size) :
    byteAt (b.extract i (i + n)) k = byteAt b (i + k) := by
  have hsize : k < (b.extract i (i + n)).size := by
    rw [ByteArray.size_extract]
    omega
  rw [byteAt_of_lt hsize, byteAt_of_lt (by omega), ByteArray.getElem_extract]

/-! ### Numbers -/

/-- The number that some bytes from a position on make, the least significant one first. -/
def natAt (b : ByteArray) : ℕ → ℕ → ℕ
  | _, 0 => 0
  | i, n + 1 => (byteAt b i).toNat + 256 * natAt b (i + 1) n

/-- Numbers of as many bytes are the same if they have the same bytes. -/
theorem natAt_inj {a b : ByteArray} {i j n : ℕ} :
    natAt a i n = natAt b j n ↔ ∀ k < n, byteAt a (i + k) = byteAt b (j + k) := by
  induction n generalizing i j with
  | zero => simp [natAt]
  | succ n ih =>
    have hi := (byteAt a i).toNat_lt
    have hj := (byteAt b j).toNat_lt
    rw [natAt, natAt]
    constructor
    · intro h k hk
      have hhead : (byteAt a i).toNat = (byteAt b j).toNat := by omega
      have htail : natAt a (i + 1) n = natAt b (j + 1) n := by omega
      cases k with
      | zero => exact UInt8.toNat_inj.1 hhead
      | succ k =>
        have := ih.1 htail k (by omega)
        rwa [Nat.add_assoc, Nat.add_assoc, Nat.add_comm 1 k] at this
    · intro h
      have hhead : byteAt a i = byteAt b j := h 0 (by omega)
      have htail : natAt a (i + 1) n = natAt b (j + 1) n := by
        refine ih.2 fun k hk => ?_
        have := h (k + 1) (by omega)
        rwa [Nat.add_comm k 1, ← Nat.add_assoc, ← Nat.add_assoc] at this
      rw [hhead, htail]

/-- The bytes at a position are the given ones if they make the same number. -/
theorem natAt_eq_iff {a : ByteArray} (ha : a.size = n) (hb : i + n ≤ b.size) :
    natAt b i n = natAt a 0 n ↔ b.extract i (i + n) = a := by
  rw [natAt_inj]
  constructor
  · intro h
    have hsize : (b.extract i (i + n)).size = n := by
      rw [ByteArray.size_extract]
      omega
    refine ext_byteAt (hsize.trans ha.symm) fun k hk => ?_
    rw [hsize] at hk
    rw [byteAt_extract hk hb, h k hk, Nat.zero_add]
  · intro h k hk
    rw [← byteAt_extract hk hb, h, Nat.zero_add]

/-! ### Words of 32 bits -/

theorem toNat_uint32At (b : ByteArray) (i : ℕ) : (uint32At b i).toNat = natAt b i 4 := by
  have h0 := (byteAt b i).toNat_lt
  have h1 := (byteAt b (i + 1)).toNat_lt
  have h2 := (byteAt b (i + 2)).toNat_lt
  have h3 := (byteAt b (i + 3)).toNat_lt
  simp only [uint32At, natAt, UInt32.toNat_add, UInt32.toNat_mul, UInt8.toNat_toUInt32,
    UInt32.reduceToNat, Nat.add_assoc, Nat.reduceAdd]
  omega

/-- The bytes of a word make the word. -/
theorem natAt_ofUInt32 (w : UInt32) : natAt (ofUInt32 w) 0 4 = w.toNat := by
  have hw := w.toNat_lt
  have hbytes : natAt (ofUInt32 w) 0 4 = w.toUInt8.toNat + 256 * ((w >>> 8).toUInt8.toNat +
      256 * ((w >>> 16).toUInt8.toNat + 256 * ((w >>> 24).toUInt8.toNat + 256 * 0))) := rfl
  rw [hbytes]
  simp only [UInt32.toNat_toUInt8, UInt32.toNat_shiftRight, UInt32.reduceToNat, Nat.reduceMod,
    Nat.shiftRight_eq_div_pow]
  omega

/-- The word at a position is the one with the bytes at that position. -/
theorem uint32At_eq_iff {w : UInt32} (h : i + 4 ≤ b.size) :
    uint32At b i = w ↔ b.extract i (i + 4) = ofUInt32 w := by
  rw [← UInt32.toNat_inj, toNat_uint32At, ← natAt_ofUInt32, natAt_eq_iff (size_ofUInt32 w) h]

/-! ### Words of 64 bits -/

theorem toNat_uint64At (b : ByteArray) (i : ℕ) : (uint64At b i).toNat = natAt b i 8 := by
  have h0 := (byteAt b i).toNat_lt
  have h1 := (byteAt b (i + 1)).toNat_lt
  have h2 := (byteAt b (i + 2)).toNat_lt
  have h3 := (byteAt b (i + 3)).toNat_lt
  have h4 := (byteAt b (i + 4)).toNat_lt
  have h5 := (byteAt b (i + 5)).toNat_lt
  have h6 := (byteAt b (i + 6)).toNat_lt
  have h7 := (byteAt b (i + 7)).toNat_lt
  simp only [uint64At, natAt, UInt64.toNat_add, UInt64.toNat_mul, UInt8.toNat_toUInt64,
    UInt64.reduceToNat, Nat.add_assoc, Nat.reduceAdd]
  omega

/-- The bytes of a word make the word. -/
theorem natAt_ofUInt64 (w : UInt64) : natAt (ofUInt64 w) 0 8 = w.toNat := by
  have hw := w.toNat_lt
  have hbytes : natAt (ofUInt64 w) 0 8 = w.toUInt8.toNat + 256 * ((w >>> 8).toUInt8.toNat +
      256 * ((w >>> 16).toUInt8.toNat + 256 * ((w >>> 24).toUInt8.toNat +
      256 * ((w >>> 32).toUInt8.toNat + 256 * ((w >>> 40).toUInt8.toNat +
      256 * ((w >>> 48).toUInt8.toNat + 256 * ((w >>> 56).toUInt8.toNat + 256 * 0))))))) := rfl
  rw [hbytes]
  simp only [UInt64.toNat_toUInt8, UInt64.toNat_shiftRight, UInt64.reduceToNat, Nat.reduceMod,
    Nat.shiftRight_eq_div_pow]
  omega

/-- The word at a position is the one with the bytes at that position. -/
theorem uint64At_eq_iff {w : UInt64} (h : i + 8 ≤ b.size) :
    uint64At b i = w ↔ b.extract i (i + 8) = ofUInt64 w := by
  rw [← UInt64.toNat_inj, toNat_uint64At, ← natAt_ofUInt64, natAt_eq_iff (size_ofUInt64 w) h]

end LittleEndian

namespace Digest

open LittleEndian

/-- The digest at a position is the one with the bytes at that position. -/
theorem ofBytesAt_eq_iff {b : ByteArray} {i : ℕ} {d : Digest} (h : i + 32 ≤ b.size) :
    ofBytesAt b i = d ↔ b.extract i (i + 32) = d.toBytes := by
  have hcut : b.extract i (i + 32) = b.extract i (i + 8) ++ b.extract (i + 8) (i + 8 + 8) ++
      b.extract (i + 16) (i + 16 + 8) ++ b.extract (i + 24) (i + 24 + 8) := by
    rw [← ByteArray.extract_eq_extract_append_extract (i + 8) (by omega) (by omega),
      ← ByteArray.extract_eq_extract_append_extract (i + 16) (by omega) (by omega),
      ← ByteArray.extract_eq_extract_append_extract (i + 24) (by omega) (by omega)]
  have hsize : ∀ (j : ℕ) (w : UInt64), j + 8 ≤ i + 32 →
      (b.extract j (j + 8)).size = (LittleEndian.ofUInt64 w).size := by
    intro j w hj
    rw [ByteArray.size_extract, size_ofUInt64]
    omega
  obtain ⟨w0, w1, w2, w3⟩ := d
  rw [hcut, toBytes, ByteArray.append_eq_append_iff_of_size_eq_right (hsize _ _ (by omega)),
    ByteArray.append_eq_append_iff_of_size_eq_right (hsize _ _ (by omega)),
    ByteArray.append_eq_append_iff_of_size_eq_right (hsize _ _ (by omega)),
    ← uint64At_eq_iff (by omega), ← uint64At_eq_iff (by omega), ← uint64At_eq_iff (by omega),
    ← uint64At_eq_iff (by omega), ofBytesAt, Digest.mk.injEq, and_assoc, and_assoc]

end Digest
end Conclave
