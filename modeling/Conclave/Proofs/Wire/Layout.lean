import Conclave.Wire.Layout
import Conclave.Proofs.Checked
import Conclave.Proofs.Wire.Bytes
import Mathlib.Algebra.Order.Group.Nat
import Mathlib.Data.List.Forall2

/-!
# Reading what was laid out

Every reader of the layout succeeds exactly on the bytes that the writer puts there. `Follows b i
parts` says that the bytes from a position on are the given parts; it is what reading part by part
establishes.

* `offsetAt_eq_ok_iff` and its like are about single fields;
* `split_eq_ok_iff` is about cutting a container at its offsets: the offsets leave no gap and the
  parts fill the container;
* `splitList_eq_ok_iff`: a list of items is read from its encoding and from nothing else.
-/

namespace Conclave
namespace Wire

variable {b : ByteArray} {i : ℕ}

theorem checkBound_eq_ok_iff {field : Field} {length bound : ℕ} :
    checkBound field length bound = .ok () ↔ length ≤ bound := by
  rw [checkBound, ite_error_eq_ok_iff, not_lt]
  simp

/-! ### Fields -/

/-- The encoding of an offset holds it if it has at most 32 bits. -/
theorem size_offset (n : ℕ) : (offset n).size = 4 := rfl

theorem byteAt_eq_ok_iff {x : UInt8} :
    byteAt b i = .ok x ↔ i + 1 ≤ b.size ∧ b.extract i (i + 1) = ByteArray.empty.push x := by
  unfold byteAt
  split
  · rename_i h
    have hone : ByteArray.empty.push x = [x].toByteArray := rfl
    rw [Except.ok.injEq, ByteArray.extract_add_one h, hone, List.toByteArray_inj]
    simp [Nat.succ_le_of_lt h]
  · rename_i h
    constructor
    · nofun
    · rintro ⟨hle, -⟩
      exact absurd hle h

theorem uint64At_eq_ok_iff {w : UInt64} :
    uint64At b i = .ok w ↔ i + 8 ≤ b.size ∧ b.extract i (i + 8) = LittleEndian.ofUInt64 w := by
  rw [uint64At, ite_else_error_eq_ok_iff, Except.ok.injEq]
  exact and_congr_right LittleEndian.uint64At_eq_iff

theorem digestAt_eq_ok_iff {d : Digest} :
    digestAt b i = .ok d ↔ i + 32 ≤ b.size ∧ b.extract i (i + 32) = d.toBytes := by
  rw [digestAt, ite_else_error_eq_ok_iff, Except.ok.injEq]
  exact and_congr_right Digest.ofBytesAt_eq_iff

theorem offsetAt_eq_ok_iff {n : ℕ} :
    offsetAt b i = .ok n ↔
      i + 4 ≤ b.size ∧ n < 2 ^ 32 ∧ b.extract i (i + 4) = offset n := by
  rw [offsetAt, ite_else_error_eq_ok_iff, Except.ok.injEq, offsetSize]
  refine and_congr_right fun h => ?_
  constructor
  · rintro rfl
    refine ⟨UInt32.toNat_lt _, ?_⟩
    rw [offset, UInt32.ofNat_toNat]
    exact (LittleEndian.uint32At_eq_iff h).1 rfl
  · rintro ⟨hn, heq⟩
    rw [(LittleEndian.uint32At_eq_iff h).2 heq, UInt32.toNat_ofNat', Nat.mod_eq_of_lt hn]

/-! ### Parts -/

@[simp] theorem concat_nil : concat [] = ByteArray.empty := rfl

@[simp] theorem concat_cons (p : ByteArray) (ps : List ByteArray) :
    concat (p :: ps) = p ++ concat ps := rfl

theorem concat_append (ps qs : List ByteArray) : concat (ps ++ qs) = concat ps ++ concat qs := by
  induction ps with
  | nil => rw [List.nil_append, concat_nil, ByteArray.empty_append]
  | cons p ps ih => rw [List.cons_append, concat_cons, concat_cons, ih, ByteArray.append_assoc]

/-- The bytes from a position on are the given parts. -/
def Follows (b : ByteArray) (i : ℕ) (parts : List ByteArray) : Prop :=
  i ≤ b.size ∧ b.extract i b.size = concat parts

theorem follows_zero {parts : List ByteArray} : Follows b 0 parts ↔ b = concat parts := by
  rw [Follows, ByteArray.extract_zero_size]
  simp

/-- The parts follow each other. -/
theorem follows_cons {p : ByteArray} {ps : List ByteArray} :
    Follows b i (p :: ps) ↔
      (i + p.size ≤ b.size ∧ b.extract i (i + p.size) = p) ∧ Follows b (i + p.size) ps := by
  rw [Follows, Follows, concat_cons]
  constructor
  · rintro ⟨hi, heq⟩
    have hsize := congrArg ByteArray.size heq
    rw [ByteArray.size_extract, ByteArray.size_append] at hsize
    have hle : i + p.size ≤ b.size := by omega
    rw [ByteArray.extract_eq_extract_append_extract (i + p.size) (by omega) hle,
      ByteArray.append_eq_append_iff_of_size_eq_left] at heq
    · exact ⟨⟨hle, heq.1⟩, hle, heq.2⟩
    · rw [ByteArray.size_extract]
      omega
  · rintro ⟨⟨hle, hp⟩, -, hps⟩
    refine ⟨by omega, ?_⟩
    rw [ByteArray.extract_eq_extract_append_extract (i + p.size) (by omega) hle, hp, hps]

/-! ### Tables -/

theorem mapM_eq_ok_iff {α β ε : Type} {f : α → Except ε β} {xs : List α} {ys : List β} :
    xs.mapM f = .ok ys ↔ List.Forall₂ (fun x y => f x = .ok y) xs ys := by
  induction xs generalizing ys with
  | nil =>
    rw [List.mapM_nil, pure_eq_ok, Except.ok.injEq, List.forall₂_nil_left_iff, eq_comm]
  | cons x xs ih =>
    rw [List.mapM_cons, bind_eq_ok_iff]
    simp only [bind_eq_ok_iff, ih, pure_eq_ok, Except.ok.injEq]
    constructor
    · rintro ⟨y, hy, ys, hys, rfl⟩
      exact .cons hy hys
    · rintro (_ | ⟨hy, hys⟩)
      exact ⟨_, hy, _, hys, rfl⟩

section FixedWidth

variable {α : Type} {read : ℕ → Except Error α} {write : α → ByteArray} {P : α → Prop} {width : ℕ}

/-- Items of fixed width are read one after the other from their concatenation. -/
theorem mapM_range_eq_ok_iff (hwidth : ∀ x, (write x).size = width)
    (hread : ∀ i x, read i = .ok x ↔ width * i + width ≤ b.size ∧ P x ∧
      b.extract (width * i) (width * i + width) = write x) {n : ℕ} {xs : List α} :
    (List.range n).mapM read = .ok xs ↔ xs.length = n ∧ (∀ x ∈ xs, P x) ∧ width * n ≤ b.size ∧
      b.extract 0 (width * n) = concat (xs.map write) := by
  induction n generalizing xs with
  | zero => cases xs <;> simp
  | succ n ih =>
    have hcut : b.extract 0 (width * (n + 1)) =
        b.extract 0 (width * n) ++ b.extract (width * n) (width * n + width) := by
      rw [Nat.mul_succ]
      exact ByteArray.extract_eq_extract_append_extract _ (Nat.zero_le _) (by omega)
    simp only [List.range_succ, List.mapM_append, List.mapM_cons, List.mapM_nil, bind_eq_ok_iff,
      pure_eq_ok, Except.ok.injEq, ih, hread, hcut]
    constructor
    · rintro ⟨ys, ⟨hlen, hys, -, heq⟩, _, ⟨x, ⟨hle, hx, hext⟩, _, rfl, rfl⟩, rfl⟩
      refine ⟨by simp [hlen], ?_, by rw [Nat.mul_succ]; exact hle, ?_⟩
      · simp only [List.mem_append, List.mem_singleton]
        rintro y (hy | rfl)
        · exact hys y hy
        · exact hx
      · rw [List.map_append, concat_append, heq, hext]
        simp
    · rintro ⟨hlen, hxs, hle, heq⟩
      rw [Nat.mul_succ] at hle
      -- the range grows at its end, so the last item is split off
      obtain ⟨ys, x, rfl⟩ : ∃ ys x, xs = ys ++ [x] :=
        (List.eq_nil_or_concat' xs).resolve_left (by rintro rfl; cases hlen)
      have hsize : (b.extract (width * n) (width * n + width)).size = (write x).size := by
        rw [ByteArray.size_extract, hwidth]
        omega
      rw [List.map_append, concat_append, List.map_singleton, concat_cons, concat_nil,
        ByteArray.append_empty, ByteArray.append_eq_append_iff_of_size_eq_right hsize] at heq
      rw [List.length_append, List.length_singleton, Nat.add_right_cancel_iff] at hlen
      refine ⟨ys, ⟨hlen, fun y hy => hxs y (List.mem_append_left _ hy), by omega, heq.1⟩, [x],
        ⟨x, ⟨hle, hxs x (by simp), heq.2⟩, [], rfl, rfl⟩, rfl⟩

end FixedWidth

/-- Where parts begin that follow each other from a position on. -/
def positions : ℕ → List ByteArray → List ℕ
  | _, [] => []
  | start, p :: ps => start :: positions (start + p.size) ps

@[simp] theorem length_positions (start : ℕ) (parts : List ByteArray) :
    (positions start parts).length = parts.length := by
  induction parts generalizing start with
  | nil => rfl
  | cons p ps ih => rw [positions, List.length_cons, ih, List.length_cons]

theorem offsets_eq_concat (start : ℕ) (parts : List ByteArray) :
    offsets start parts = concat ((positions start parts).map offset) := by
  induction parts generalizing start with
  | nil => rfl
  | cons p ps ih => rw [offsets, ih, positions, List.map_cons, concat_cons]

/-- Cutting off the first part, which ends where the next one begins or at the end. -/
theorem splitFrom_cons_eq_ok_iff {least start : ℕ} {rest : List ℕ} {parts : List ByteArray} :
    splitFrom b least (start :: rest) = .ok parts ↔
      least ≤ start ∧ start ≤ rest.headD b.size ∧ rest.headD b.size ≤ b.size ∧
        ∃ ps, splitFrom b start rest = .ok ps ∧
          b.extract start (rest.headD b.size) :: ps = parts := by
  simp only [splitFrom, slice, throw_eq_error, error_bind, bind_eq_ok_iff, ite_error_eq_ok_iff,
    ite_else_error_eq_ok_iff, not_or, not_lt, pure_eq_ok, Except.ok.injEq]
  constructor
  · rintro ⟨⟨hleast, -⟩, ⟨hle, hstop⟩, _, ⟨-, rfl⟩, ps, hps, rfl⟩
    exact ⟨hleast, hle, hstop, ps, hps, rfl⟩
  · rintro ⟨hleast, hle, hstop, ps, hps, rfl⟩
    exact ⟨⟨hleast, hle.trans hstop⟩, ⟨hle, hstop⟩, _, ⟨⟨hle, hstop⟩, rfl⟩, ps, hps, rfl⟩

/-- Parts are cut off at the positions where they begin, and fill the rest. -/
theorem splitFrom_eq_ok_iff {least start : ℕ} {rest : List ℕ} {parts : List ByteArray} :
    splitFrom b least (start :: rest) = .ok parts ↔
      least ≤ start ∧ start :: rest = positions start parts ∧ Follows b start parts := by
  induction rest generalizing least start parts with
  | nil =>
    rw [splitFrom_cons_eq_ok_iff, List.headD_nil]
    constructor
    · rintro ⟨hleast, hle, -, _, ⟨⟩, rfl⟩
      refine ⟨hleast, rfl, hle, ?_⟩
      simp
    · rintro ⟨hleast, hpos, hle, heq⟩
      refine ⟨hleast, hle, le_rfl, [], rfl, ?_⟩
      obtain ⟨p, rfl⟩ : ∃ p, parts = [p] := by
        have hlen := congrArg List.length hpos
        rw [length_positions] at hlen
        exact List.length_eq_one_iff.1 hlen.symm
      rw [heq]
      simp
  | cons next rest ih =>
    rw [splitFrom_cons_eq_ok_iff, List.headD_cons]
    constructor
    · rintro ⟨hleast, hle, hstop, ps, hps, rfl⟩
      obtain ⟨-, hpos, hfollows⟩ := ih.1 hps
      have hsize : start + (b.extract start next).size = next := by
        rw [ByteArray.size_extract]
        omega
      refine ⟨hleast, ?_, ?_⟩
      · rw [positions, hsize, hpos]
      · rw [follows_cons, hsize]
        exact ⟨⟨hstop, rfl⟩, hfollows⟩
    · rintro ⟨hleast, hpos, hfollows⟩
      cases parts with
      | nil => cases hpos
      | cons p ps =>
        obtain ⟨⟨hle, hp⟩, hfollows⟩ := follows_cons.1 hfollows
        rw [positions, List.cons.injEq] at hpos
        -- the next offset is where the first part ends
        have hnext : next = start + p.size := by
          cases ps with
          | nil => cases hpos.2
          | cons q qs => exact (List.cons.inj hpos.2).1
        subst hnext
        exact ⟨hleast, by omega, hle, ps, ih.2 ⟨by omega, hpos.2, hfollows⟩, by rw [hp]⟩

/-- A container with at least one part is cut at the positions of its parts. -/
theorem split_eq_ok_iff {head : ℕ} {starts : List ℕ} {parts : List ByteArray} (h : starts ≠ []) :
    split b head starts = .ok parts ↔ starts = positions head parts ∧ Follows b head parts := by
  cases starts with
  | nil => exact absurd rfl h
  | cons start rest =>
    rw [split, ite_error_eq_ok_iff, Decidable.not_not, splitFrom_eq_ok_iff]
    constructor
    · rintro ⟨rfl, -, hpos, hfollows⟩
      exact ⟨hpos, hfollows⟩
    · rintro ⟨hpos, hfollows⟩
      have hstart : start = head := by
        cases parts with
        | nil => cases hpos
        | cons p ps => exact (List.cons.inj hpos).1
      subst hstart
      exact ⟨rfl, le_rfl, hpos, hfollows⟩

/-! ### Lists of items -/

theorem size_concat_map {α : Type} {write : α → ByteArray} {width : ℕ}
    (hwidth : ∀ x, (write x).size = width) (xs : List α) :
    (concat (xs.map write)).size = width * xs.length := by
  induction xs with
  | nil => rfl
  | cons x xs ih =>
    rw [List.map_cons, concat_cons, ByteArray.size_append, hwidth, ih, List.length_cons,
      Nat.mul_succ, Nat.add_comm]

@[simp] theorem size_offsets (start : ℕ) (parts : List ByteArray) :
    (offsets start parts).size = 4 * parts.length := by
  rw [offsets_eq_concat, size_concat_map size_offset, length_positions]

/-- No part begins behind the end. -/
theorem le_size_of_mem_positions {start n : ℕ} {parts : List ByteArray}
    (h : Follows b start parts) (hn : n ∈ positions start parts) : n ≤ b.size := by
  induction parts generalizing start with
  | nil => cases hn
  | cons p ps ih =>
    rw [positions, List.mem_cons] at hn
    rcases hn with rfl | hn
    · exact h.1
    · exact ih (follows_cons.1 h).2 hn

/-- A list of items is a table of their positions, and then the items. -/
theorem eq_joinList_iff {parts : List ByteArray} :
    b = joinList parts ↔ (4 * parts.length ≤ b.size ∧
      b.extract 0 (4 * parts.length) = concat ((positions (4 * parts.length) parts).map offset)) ∧
        Follows b (4 * parts.length) parts := by
  have hparts : b = joinList parts ↔
      Follows b 0 [offsets (4 * parts.length) parts, concat parts] := by
    rw [follows_zero, joinList, offsetSize, concat_cons, concat_cons, concat_nil,
      ByteArray.append_empty]
  rw [hparts, follows_cons, size_offsets, Nat.zero_add, offsets_eq_concat]
  refine and_congr_right fun _ => ?_
  rw [Follows, Follows, concat_cons, concat_nil, ByteArray.append_empty]

/-- No part is larger than the whole. -/
theorem size_le_concat {p : ByteArray} {parts : List ByteArray} (h : p ∈ parts) :
    p.size ≤ (concat parts).size := by
  induction parts with
  | nil => cases h
  | cons q qs ih =>
    rw [concat_cons, ByteArray.size_append]
    rcases List.mem_cons.1 h with rfl | h
    · omega
    · have := ih h
      omega

theorem size_le_joinList {p : ByteArray} {parts : List ByteArray} (h : p ∈ parts) :
    p.size ≤ (joinList parts).size := by
  have := size_le_concat h
  rw [joinList, ByteArray.size_append]
  omega

theorem size_lt_of_eq_joinList {n : ℕ} {p : ByteArray} {parts : List ByteArray} (hb : b.size < n)
    (hjoin : b = joinList parts) (h : p ∈ parts) : p.size < n := by
  rw [hjoin] at hb
  exact (size_le_joinList h).trans_lt hb

theorem readOffsets_eq_ok_iff {n : ℕ} {starts : List ℕ} :
    (List.range n).mapM (fun i => offsetAt b (i * offsetSize)) = .ok starts ↔
      starts.length = n ∧ (∀ s ∈ starts, s < 2 ^ 32) ∧ 4 * n ≤ b.size ∧
        b.extract 0 (4 * n) = concat (starts.map offset) := by
  refine mapM_range_eq_ok_iff size_offset fun i x => ?_
  rw [offsetAt_eq_ok_iff, offsetSize, Nat.mul_comm i 4]

/-- The items of a list whose number is known. -/
theorem exists_split_iff {n : ℕ} (hn : 0 < n) (hb : b.size < 2 ^ 32) {parts : List ByteArray} :
    (∃ starts, (List.range n).mapM (fun i => offsetAt b (i * offsetSize)) = .ok starts ∧
      split b (4 * n) starts = .ok parts) ↔ parts.length = n ∧ b = joinList parts := by
  constructor
  · rintro ⟨starts, hread, hsplit⟩
    obtain ⟨hlen, -, hle, htable⟩ := readOffsets_eq_ok_iff.1 hread
    have hne : starts ≠ [] := by
      rintro rfl
      exact hn.ne hlen
    obtain ⟨rfl, hfollows⟩ := (split_eq_ok_iff hne).1 hsplit
    rw [length_positions] at hlen
    subst hlen
    exact ⟨rfl, eq_joinList_iff.2 ⟨⟨hle, htable⟩, hfollows⟩⟩
  · rintro ⟨rfl, hjoin⟩
    obtain ⟨⟨hle, htable⟩, hfollows⟩ := eq_joinList_iff.1 hjoin
    have hlen := length_positions (4 * parts.length) parts
    have hne : positions (4 * parts.length) parts ≠ [] := by
      intro hnil
      rw [hnil] at hlen
      exact hn.ne hlen
    refine ⟨positions (4 * parts.length) parts, readOffsets_eq_ok_iff.2 ⟨hlen, fun s hs => ?_, hle,
      htable⟩, (split_eq_ok_iff hne).2 ⟨rfl, hfollows⟩⟩
    exact (le_size_of_mem_positions hfollows hs).trans_lt hb

/-- The first offset of a list tells how many items there are. -/
theorem offsetAt_joinList {items : List ByteArray} (hb : b.size < 2 ^ 32) (h : items ≠ [])
    (hjoin : b = joinList items) : offsetAt b 0 = .ok (4 * items.length) := by
  have hle := (eq_joinList_iff.1 hjoin).1.1
  cases items with
  | nil => exact absurd rfl h
  | cons p ps =>
    have hfollows : Follows b 0 [offset (4 * (p :: ps).length),
        offsets (4 * (p :: ps).length + p.size) ps, concat (p :: ps)] := by
      rw [follows_zero, hjoin, joinList, offsetSize, offsets]
      simp only [concat_cons, concat_nil, ByteArray.append_empty, ByteArray.append_assoc]
    obtain ⟨⟨hsize, hfirst⟩, -⟩ := follows_cons.1 hfollows
    rw [size_offset] at hsize hfirst
    exact offsetAt_eq_ok_iff.2 ⟨hsize, by omega, hfirst⟩

/-- A list of items is read from its encoding and from nothing else. -/
theorem splitList_eq_ok_iff {field : Field} {bound : ℕ} (hb : b.size < 2 ^ 32)
    {items : List ByteArray} :
    splitList b field bound = .ok items ↔ items.length ≤ bound ∧ b = joinList items := by
  unfold splitList
  by_cases hempty : b.size = 0
  · rw [if_pos hempty, pure_eq_ok, Except.ok.injEq]
    constructor
    · rintro rfl
      exact ⟨Nat.zero_le _, ByteArray.size_eq_zero_iff.1 hempty⟩
    · rintro ⟨-, hjoin⟩
      have hle := (eq_joinList_iff.1 hjoin).1.1
      exact (List.length_eq_zero_iff.1 (by omega)).symm
  simp only [if_neg hempty, throw_eq_error, error_bind, bind_eq_ok_iff, exists_unit_iff,
    ite_error_eq_ok_iff, checkBound_eq_ok_iff, not_or, not_lt, Decidable.not_not]
  have hcount : ∀ n, 4 * n / offsetSize = n := fun n => Nat.mul_div_cancel_left n (by decide)
  constructor
  · rintro ⟨first, -, ⟨hpos, hmod, -⟩, hbound, hitems⟩
    obtain ⟨n, rfl⟩ : ∃ n, first = 4 * n := Nat.dvd_of_mod_eq_zero hmod
    rw [hcount] at hbound hitems
    obtain ⟨hlen, hjoin⟩ := (exists_split_iff (by omega) hb).1 hitems
    exact ⟨hlen ▸ hbound, hjoin⟩
  · rintro ⟨hbound, hjoin⟩
    have hne : items ≠ [] := by
      rintro rfl
      exact hempty (congrArg ByteArray.size hjoin)
    have hpos := List.length_pos_of_ne_nil hne
    have hle := (eq_joinList_iff.1 hjoin).1.1
    refine ⟨4 * items.length, offsetAt_joinList hb hne hjoin, ⟨by omega, ?_, hle⟩, ?_, ?_⟩
    · rw [offsetSize]
      omega
    · rw [hcount]
      exact hbound
    · rw [hcount]
      exact (exists_split_iff hpos hb).2 ⟨rfl, hjoin⟩

end Wire
end Conclave
