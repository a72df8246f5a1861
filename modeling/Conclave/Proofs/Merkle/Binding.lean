import Conclave.Proofs.Merkle.Tree
import Conclave.Proofs.Wire.Bytes
import Mathlib.Data.Set.Function

/-!
# A root binds what it is the root of

Two different lists of leaves have different roots, unless two pairs of nodes that are hashed on the
way up have the same hash. No hash function is injective on all pairs, so the pairs that matter are
listed: `climbPairs` and its like are the pairs that are hashed for a root, those of zeros included.

* `root_inj` is the statement about as many leaves on both sides, with the same limit;
* `bytesRoot_inj` and `listRoot_inj` need no such condition, since the length is bound to the root;
* `containerRoot_inj` is about records with as many fields.
-/

namespace Conclave

namespace Digest

theorem ofUInt64_inj {a b : UInt64} : Digest.ofUInt64 a = Digest.ofUInt64 b ↔ a = b := by
  simp [Digest.ofUInt64]

/-- Digests read from bytes are equal if all their bytes are. -/
theorem ofBytesAt_inj {a b : ByteArray} {i : ℕ}
    (h : ofBytesAt a i = ofBytesAt b i) :
    ∀ k < 32, LittleEndian.byteAt a (i + k) = LittleEndian.byteAt b (i + k) := by
  have hword {j : ℕ} (hj : LittleEndian.uint64At a j = LittleEndian.uint64At b j) :
      ∀ k < 8, LittleEndian.byteAt a (j + k) = LittleEndian.byteAt b (j + k) := by
    rw [← LittleEndian.natAt_inj, ← LittleEndian.toNat_uint64At, hj, LittleEndian.toNat_uint64At]
  obtain ⟨h0, h1, h2, h3⟩ := Digest.mk.inj h
  intro k hk
  -- the word that the byte is in, and its place there
  obtain ⟨r, hr, rfl | rfl | rfl | rfl⟩ :
      ∃ r < 8, k = r ∨ k = 8 + r ∨ k = 16 + r ∨ k = 24 + r := ⟨k % 8, by omega, by omega⟩
  · exact hword h0 _ hr
  · rw [← Nat.add_assoc]
    exact hword h1 r hr
  · rw [← Nat.add_assoc]
    exact hword h2 r hr
  · rw [← Nat.add_assoc]
    exact hword h3 r hr

end Digest

namespace Merkle

section Pairs

variable (hashPair : Digest → Digest → Digest)

/-- The pairs of nodes below the nodes of the layer above a layer. -/
def layerPairs (zero : Digest) (layer : Array Digest) : List (Digest × Digest) :=
  (List.range ((layer.size + 1) / 2)).map fun i =>
    (layer.getD (2 * i) zero, layer.getD (2 * i + 1) zero)

/-- The pairs that are hashed while climbing `n` steps from a layer. -/
def climbPairs : ℕ → Digest → Array Digest → List (Digest × Digest)
  | 0, _, _ => []
  | n + 1, zero, layer =>
    layerPairs zero layer ++
      (zero, zero) :: climbPairs n (hashPair zero zero) (layerAbove hashPair zero layer)

/-- The pairs that are hashed for the root of a tree. -/
def rootPairs (leaves : Array Digest) (limit : ℕ) : List (Digest × Digest) :=
  climbPairs hashPair (depth limit leaves.size) Digest.zero leaves

/-- The pair that is hashed to bind the length of a sequence to its root. -/
def lengthPair (root : Digest) (length : ℕ) : Digest × Digest :=
  (root, Digest.ofUInt64 (UInt64.ofNat length))

/-- The pairs that are hashed for the root of a byte string. -/
def bytesRootPairs (b : ByteArray) (maxLength : ℕ) : List (Digest × Digest) :=
  lengthPair (root hashPair (pack b) ((maxLength + 31) / 32)) b.size ::
    rootPairs hashPair (pack b) ((maxLength + 31) / 32)

/-- The pairs that are hashed for the root of a list, given the roots of its items. -/
def listRootPairs (items : List Digest) (maxLength : ℕ) : List (Digest × Digest) :=
  lengthPair (root hashPair items.toArray maxLength) items.length ::
    rootPairs hashPair items.toArray maxLength

/-- The pairs that are hashed for the root of a record, given the roots of its fields. -/
def containerRootPairs (fields : List Digest) : List (Digest × Digest) :=
  rootPairs hashPair fields.toArray fields.length

end Pairs

/-! ### Leaves -/

@[simp] theorem size_pack (b : ByteArray) : (pack b).size = (b.size + 31) / 32 := by
  simp [pack]

/-- Byte strings of the same size have different leaves. -/
theorem pack_inj {a b : ByteArray} (hsize : a.size = b.size) (h : pack a = pack b) : a = b := by
  refine LittleEndian.ext_byteAt hsize fun k hk => ?_
  have hleaf : (pack a)[k / 32]? = (pack b)[k / 32]? := by rw [h]
  have ha : k / 32 < (a.size + 31) / 32 := by omega
  have hb : k / 32 < (b.size + 31) / 32 := by omega
  simp only [pack, Array.getElem?_ofFn, ha, hb, dite_true, Option.some.injEq] at hleaf
  have := Digest.ofBytesAt_inj hleaf (k % 32) (Nat.mod_lt _ (by decide))
  rwa [Nat.div_add_mod] at this

/-! ### Trees -/

section Injective

variable {hashPair : Digest → Digest → Digest} {P : Set (Digest × Digest)}
  (hP : P.InjOn (Function.uncurry hashPair))

@[simp] theorem size_layerAbove (zero : Digest) (layer : Array Digest) :
    (layerAbove hashPair zero layer).size = (layer.size + 1) / 2 := by
  simp [layerAbove]

include hP

/-- Layers of the same size have different layers above them. -/
theorem layerAbove_inj {zero : Digest} {xs ys : Array Digest} (hsize : xs.size = ys.size)
    (hxs : ∀ p ∈ layerPairs zero xs, p ∈ P) (hys : ∀ p ∈ layerPairs zero ys, p ∈ P)
    (h : layerAbove hashPair zero xs = layerAbove hashPair zero ys) : xs = ys := by
  -- the pair that a node of the upper layer is the hash of
  have hpair : ∀ j < (xs.size + 1) / 2, xs.getD (2 * j) zero = ys.getD (2 * j) zero ∧
      xs.getD (2 * j + 1) zero = ys.getD (2 * j + 1) zero := by
    intro j hj
    have hnode := congrArg (fun layer => layer.getD j (hashPair zero zero)) h
    simp only [getD_layerAbove] at hnode
    have hmem := hxs _ (List.mem_map.2 ⟨j, List.mem_range.2 hj, rfl⟩)
    have hmem' := hys _ (List.mem_map.2 ⟨j, List.mem_range.2 (hsize ▸ hj), rfl⟩)
    exact Prod.mk.inj (hP hmem hmem' hnode)
  refine Array.ext hsize fun i hi hi' => ?_
  have hget : xs.getD i zero = ys.getD i zero := by
    obtain ⟨hleft, hright⟩ := hpair (i / 2) (by omega)
    rcases Nat.mod_two_eq_zero_or_one i with hmod | hmod
    · rwa [show 2 * (i / 2) = i by omega] at hleft
    · rwa [show 2 * (i / 2) + 1 = i by omega] at hright
  simpa [Array.getD, hi, hi'] using hget

/-- Layers of the same size that are below one node have different nodes above them. -/
theorem climb_inj {n : ℕ} {zero : Digest} {xs ys : Array Digest} (hsize : xs.size = ys.size)
    (hroom : xs.size ≤ 2 ^ n) (hxs : ∀ p ∈ climbPairs hashPair n zero xs, p ∈ P)
    (hys : ∀ p ∈ climbPairs hashPair n zero ys, p ∈ P)
    (h : climb hashPair n zero xs = climb hashPair n zero ys) : xs = ys := by
  induction n generalizing zero xs ys with
  | zero =>
    refine Array.ext hsize fun i hi hi' => ?_
    obtain rfl : i = 0 := by omega
    simpa [climb, Array.getD, hi, hi'] using h
  | succ n ih =>
    simp only [climbPairs, List.forall_mem_append, List.forall_mem_cons] at hxs hys
    obtain ⟨hxs, -, hxsAbove⟩ := hxs
    obtain ⟨hys, -, hysAbove⟩ := hys
    refine layerAbove_inj hP hsize hxs hys (ih ?_ ?_ hxsAbove hysAbove h)
    · rw [size_layerAbove, size_layerAbove, hsize]
    · rw [size_layerAbove]
      omega

/-- As many leaves below the same limit have different roots. -/
theorem root_inj {xs ys : Array Digest} {limit : ℕ} (hsize : xs.size = ys.size)
    (hxs : ∀ p ∈ rootPairs hashPair xs limit, p ∈ P)
    (hys : ∀ p ∈ rootPairs hashPair ys limit, p ∈ P)
    (h : root hashPair xs limit = root hashPair ys limit) : xs = ys := by
  unfold rootPairs at hxs hys
  unfold root at h
  rw [← hsize] at hys h
  exact climb_inj hP hsize (leaves_le_two_pow_depth _ _) hxs hys h

/-- A root and a length are bound together. -/
theorem mixLength_inj {r r' : Digest} {n n' : ℕ} (hn : n < 2 ^ 64) (hn' : n' < 2 ^ 64)
    (hr : lengthPair r n ∈ P) (hr' : lengthPair r' n' ∈ P)
    (h : mixLength hashPair r n = mixLength hashPair r' n') : r = r' ∧ n = n' := by
  obtain ⟨hroot, hlength⟩ := Prod.mk.inj (hP hr hr' h)
  have hword := congrArg UInt64.toNat (Digest.ofUInt64_inj.1 hlength)
  rw [UInt64.toNat_ofNat_of_lt' hn, UInt64.toNat_ofNat_of_lt' hn'] at hword
  exact ⟨hroot, hword⟩

/-- Byte strings have different roots. -/
theorem bytesRoot_inj {a b : ByteArray} {maxLength : ℕ} (ha : a.size < 2 ^ 64)
    (hb : b.size < 2 ^ 64) (hpa : ∀ p ∈ bytesRootPairs hashPair a maxLength, p ∈ P)
    (hpb : ∀ p ∈ bytesRootPairs hashPair b maxLength, p ∈ P)
    (h : bytesRoot hashPair a maxLength = bytesRoot hashPair b maxLength) : a = b := by
  obtain ⟨hma, hra⟩ := List.forall_mem_cons.1 hpa
  obtain ⟨hmb, hrb⟩ := List.forall_mem_cons.1 hpb
  obtain ⟨hroot, hsize⟩ := mixLength_inj hP ha hb hma hmb h
  exact pack_inj hsize (root_inj hP (by rw [size_pack, size_pack, hsize]) hra hrb hroot)

/-- Lists have different roots if their items have. -/
theorem listRoot_inj {xs ys : List Digest} {maxLength : ℕ} (hx : xs.length < 2 ^ 64)
    (hy : ys.length < 2 ^ 64) (hpx : ∀ p ∈ listRootPairs hashPair xs maxLength, p ∈ P)
    (hpy : ∀ p ∈ listRootPairs hashPair ys maxLength, p ∈ P)
    (h : listRoot hashPair xs maxLength = listRoot hashPair ys maxLength) : xs = ys := by
  obtain ⟨hmx, hrx⟩ := List.forall_mem_cons.1 hpx
  obtain ⟨hmy, hry⟩ := List.forall_mem_cons.1 hpy
  obtain ⟨hroot, hlen⟩ := mixLength_inj hP hx hy hmx hmy h
  exact List.toArray_inj (root_inj hP (by simpa using hlen) hrx hry hroot)

/-- Records with as many fields have different roots if their fields have. -/
theorem containerRoot_inj {xs ys : List Digest}
    (hpx : ∀ p ∈ containerRootPairs hashPair xs, p ∈ P)
    (hpy : ∀ p ∈ containerRootPairs hashPair ys, p ∈ P)
    (h : containerRoot hashPair xs = containerRoot hashPair ys) (hlen : xs.length = ys.length) :
    xs = ys := by
  unfold containerRootPairs at hpx hpy
  unfold containerRoot at h
  rw [← hlen] at hpy h
  exact List.toArray_inj (root_inj hP (by simpa using hlen) hpx hpy h)

end Injective

end Merkle
end Conclave
