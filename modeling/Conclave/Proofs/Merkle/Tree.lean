import Conclave.Hash.Sha3
import Conclave.Merkle
import Mathlib.Algebra.Order.Group.Nat
import Mathlib.Order.Bounds.Basic

/-!
# Merkle roots are roots of full trees

`Merkle.root` keeps of each layer only the nodes above a leaf. The tree that it is the root of is
never built; it is described here.

* `Tree n` are the complete binary trees of height `n`, with `2 ^ n` leaves;
* `climb_eq` says that climbing from a layer yields the root of the tree above the whole layer,
  with the node that stands for all others in every place behind those that are kept;
* `root_of_full_tree` is the statement about `Merkle.root?`, and that zeros behind the last leaf do
  not change it.
-/

namespace Conclave
namespace Merkle

variable (hashPair : Digest → Digest → Digest)

/-! ### Complete trees -/

/-- The complete binary trees of a height. -/
inductive Tree : ℕ → Type
  | leaf (d : Digest) : Tree 0
  | node {n : ℕ} (left right : Tree n) : Tree (n + 1)

namespace Tree

/-- The leaves from left to right. -/
def leaves : {n : ℕ} → Tree n → List Digest
  | _, .leaf d => [d]
  | _, .node left right => left.leaves ++ right.leaves

/-- The root, where an inner node is the hash of its children. -/
def root : {n : ℕ} → Tree n → Digest
  | _, .leaf d => d
  | _, .node left right => hashPair (left.root) (right.root)

@[simp] theorem length_leaves {n : ℕ} (t : Tree n) : t.leaves.length = 2 ^ n := by
  induction t with
  | leaf d => rfl
  | node left right ihl ihr => rw [leaves, List.length_append, ihl, ihr, Nat.pow_succ, Nat.mul_two]

/-- A tree of a given height is determined by its leaves. -/
theorem leaves_inj {n : ℕ} {t u : Tree n} : t.leaves = u.leaves ↔ t = u := by
  refine ⟨fun h => ?_, fun h => h ▸ rfl⟩
  induction t with
  | leaf d =>
    cases u with
    | leaf e => rw [List.singleton_inj.1 h]
  | node left right ihl ihr =>
    cases u with
    | node left' right' =>
      obtain ⟨hl, hr⟩ := List.append_inj h (by rw [length_leaves, length_leaves])
      rw [ihl hl, ihr hr]

/-- The tree of height `n` at place `i` of its layer, above leaves that are numbered from zero. -/
def above (leaf : ℕ → Digest) : (n : ℕ) → ℕ → Tree n
  | 0, i => .leaf (leaf i)
  | n + 1, i => .node (above leaf n (2 * i)) (above leaf n (2 * i + 1))

theorem leaves_above (leaf : ℕ → Digest) (n i : ℕ) :
    (above leaf n i).leaves = (List.range (2 ^ n)).map fun k => leaf (2 ^ n * i + k) := by
  induction n generalizing i with
  | zero => simp [above, leaves]
  | succ n ih =>
    have hleft : 2 ^ n * (2 * i) = 2 ^ (n + 1) * i := by
      rw [← Nat.mul_assoc, ← Nat.pow_succ]
    have hright (k : ℕ) : 2 ^ n * (2 * i + 1) + k = 2 ^ (n + 1) * i + (2 ^ n + k) := by
      rw [Nat.mul_add, hleft, Nat.mul_one, Nat.add_assoc]
    rw [above, leaves, ih, ih, Nat.pow_succ, Nat.mul_two, List.range_add, List.map_append,
      List.map_map]
    simp only [hleft, hright, Function.comp_def, Nat.pow_succ, Nat.mul_two]

/-- The lowest layer of inner nodes is a layer of leaves for what is above it. -/
theorem root_above_succ (leaf : ℕ → Digest) (n i : ℕ) :
    (above leaf (n + 1) i).root hashPair =
      (above (fun k => hashPair (leaf (2 * k)) (leaf (2 * k + 1))) n i).root hashPair := by
  induction n generalizing i with
  | zero => rfl
  | succ n ih =>
    rw [above, root, ih, ih]
    rfl

end Tree

/-! ### Climbing -/

/-- The nodes above a layer: a place behind those that are kept has two nodes below it that are
behind those that are kept. -/
theorem getD_layerAbove (zero : Digest) (layer : Array Digest) (i : ℕ) :
    (layerAbove hashPair zero layer).getD i (hashPair zero zero) =
      hashPair (layer.getD (2 * i) zero) (layer.getD (2 * i + 1) zero) := by
  by_cases hi : i < (layer.size + 1) / 2
  · simp [layerAbove, Array.getD_eq_getD_getElem?, hi]
  · have hleft : layer.size ≤ 2 * i := by omega
    have hright : layer.size ≤ 2 * i + 1 := by omega
    simp [layerAbove, Array.getD_eq_getD_getElem?, hi, hleft, hright]

/-- Climbing yields the root of the tree above the whole layer. -/
theorem climb_eq (n : ℕ) (zero : Digest) (layer : Array Digest) :
    climb hashPair n zero layer =
      (Tree.above (fun i => layer.getD i zero) n 0).root hashPair := by
  induction n generalizing zero layer with
  | zero => rfl
  | succ n ih =>
    rw [climb, ih, Tree.root_above_succ]
    simp only [getD_layerAbove]

/-! ### Heights -/

/-- The height of a tree is the least one with room for the limit and for all leaves. -/
theorem depth_le_iff {limit leaves d : ℕ} :
    depth limit leaves ≤ d ↔ max limit (max leaves 1) ≤ 2 ^ d := by
  unfold depth
  generalize hplaces : max limit (max leaves 1) = places
  have hne : places ≠ 0 := by omega
  have hlow : 2 ^ places.log2 ≤ places := Nat.log2_self_le hne
  have hhigh : places < 2 ^ (places.log2 + 1) := Nat.lt_log2_self
  dsimp only
  split
  · rename_i habove
    constructor
    · intro hle
      exact hhigh.le.trans (Nat.pow_le_pow_right Nat.two_pos hle)
    · intro hle
      exact (Nat.pow_lt_pow_iff_right Nat.one_lt_two).1 (habove.trans_le hle)
  · rename_i habove
    have heq : places = 2 ^ places.log2 := le_antisymm (not_lt.1 habove) hlow
    rw [← Nat.pow_le_pow_iff_right Nat.one_lt_two, ← heq]

theorem le_two_pow_depth (limit leaves : ℕ) :
    max limit (max leaves 1) ≤ 2 ^ depth limit leaves :=
  depth_le_iff.1 le_rfl

/-- All leaves fit below the root. -/
theorem leaves_le_two_pow_depth (limit leaves : ℕ) : leaves ≤ 2 ^ depth limit leaves := by
  have := le_two_pow_depth limit leaves
  omega

/-- More leaves make no higher tree as long as there is room for them. -/
theorem depth_eq_of_le {limit leaves leaves' : ℕ} (hle : leaves ≤ leaves')
    (hroom : leaves' ≤ 2 ^ depth limit leaves) : depth limit leaves' = depth limit leaves := by
  have hlow := le_two_pow_depth limit leaves
  have hhigh := le_two_pow_depth limit leaves'
  refine le_antisymm (depth_le_iff.2 ?_) (depth_le_iff.2 ?_)
  · omega
  · omega

/-! ### Roots -/

/-- The leaves of a tree, up to its width: the given ones, and zeros behind them. -/
theorem leaves_above_getD {leaves : Array Digest} {n : ℕ} (h : leaves.size ≤ 2 ^ n) :
    (Tree.above (fun i => leaves.getD i Digest.zero) n 0).leaves =
      leaves.toList ++ List.replicate (2 ^ n - leaves.size) Digest.zero := by
  rw [Tree.leaves_above]
  refine List.ext_getElem (by simp [h]) fun i hi hi' => ?_
  by_cases hlt : i < leaves.size
  · simp [Array.getD_eq_getD_getElem?, hlt]
  · have hle : leaves.toList.length ≤ i := not_lt.1 hlt
    rw [List.getElem_append_right hle]
    simp [Array.getD_eq_getD_getElem?, hlt]

theorem getD_append_replicate (leaves : Array Digest) (k i : ℕ) :
    (leaves ++ Array.replicate k Digest.zero).getD i Digest.zero = leaves.getD i Digest.zero := by
  by_cases hlt : i < leaves.size
  · simp [Array.getD_eq_getD_getElem?, Array.getElem?_append, hlt]
  · simp only [Array.getD_eq_getD_getElem?, Array.getElem?_append, Array.getElem?_replicate, hlt,
      if_false]
    split <;> simp [hlt]

/-- A root within the range of limits is that of the full tree: the complete binary tree of the
least height with room for the limit and for all leaves, with the leaves followed by zeros. Zeros
that are given explicitly, as far as there is room for them, do not change it. -/
theorem root_of_full_tree (leaves : Array Digest) (limit : ℕ)
    (h : max limit leaves.size ≤ 2 ^ 63) :
    ∃ d, IsLeast {n | max limit (max leaves.size 1) ≤ 2 ^ n} d ∧
      (∃ t : Tree d,
        (∀ u : Tree d, u.leaves =
          leaves.toList ++ List.replicate (2 ^ d - leaves.size) Digest.zero ↔ u = t) ∧
        root? hashPair leaves limit = .ok (t.root hashPair)) ∧
      ∀ k, leaves.size + k ≤ 2 ^ d →
        root? hashPair (leaves ++ Array.replicate k Digest.zero) limit =
          root? hashPair leaves limit := by
  have hdepth : depth limit leaves.size ≤ 63 := depth_le_iff.2 (by omega)
  have hroot : ∀ {xs : Array Digest}, max limit xs.size ≤ 2 ^ 63 →
      root? hashPair xs limit = .ok (root hashPair xs limit) := fun hxs => if_pos hxs
  refine ⟨depth limit leaves.size, ⟨le_two_pow_depth _ _, fun n hn => depth_le_iff.2 hn⟩,
    ⟨Tree.above (fun i => leaves.getD i Digest.zero) _ 0, fun u => ?_, ?_⟩, fun k hk => ?_⟩
  · rw [← Tree.leaves_inj, leaves_above_getD (leaves_le_two_pow_depth _ _)]
  · rw [hroot h, root, climb_eq]
  · have hsize : (leaves ++ Array.replicate k Digest.zero).size = leaves.size + k := by simp
    have hroom : leaves.size + k ≤ 2 ^ 63 := hk.trans (Nat.pow_le_pow_right Nat.two_pos hdepth)
    rw [hroot h, hroot (by omega), root, root, climb_eq, climb_eq, hsize,
      depth_eq_of_le (Nat.le_add_right _ k) hk]
    simp only [getD_append_replicate]

/-- Three leaves with room for five are the first of eight. -/
theorem root_of_three_leaves :
    max 5 3 ≤ 2 ^ 63 ∧ ∃ t : Tree 3,
      t.leaves = [1, 2, 3, 0, 0, 0, 0, 0].map Digest.ofUInt64 ∧
      root? Sha3.hashPair #[.ofUInt64 1, .ofUInt64 2, .ofUInt64 3] 5 =
        .ok (t.root Sha3.hashPair) := by
  have hrange : max 5 3 ≤ 2 ^ 63 := by decide
  obtain ⟨d, hd, ⟨t, ht, hroot⟩, -⟩ :=
    root_of_full_tree Sha3.hashPair #[.ofUInt64 1, .ofUInt64 2, .ofUInt64 3] 5 hrange
  have hdepth : ∀ n, max 5 (max 3 1) ≤ 2 ^ n → depth 5 3 ≤ n := fun n => depth_le_iff.2
  obtain rfl : d = 3 := hd.unique ⟨show 5 ≤ 8 by decide, hdepth⟩
  exact ⟨hrange, t, (ht t).2 rfl, hroot⟩

end Merkle
end Conclave
