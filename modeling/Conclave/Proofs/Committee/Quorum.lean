import Conclave.Proofs.PlainScheme
import Mathlib.Data.Finset.Card
import Mathlib.Order.Bounds.Defs

/-!
# Quorums

A quorum of `n` members lacks at most as many members as may be faulty, and fewer than a third of
the members may be. So two quorums share more members than may be faulty, and one of those is
outside every set of that many members; this is what agreement rests on. A partial quorum is just
large enough to have a member outside every such set: what it says, somebody says who is not faulty.

* `Thresholds.le_faulty_iff` is the arithmetic: how many members may be faulty;
* `Committee.names` is the set of the members' names;
* `Committee.faulty_lt_card_inter` counts what two quorums share;
* `Committee.exists_mem_inter` and `Committee.exists_mem_notMem` give a member that is not faulty;
* `Committee.quorum_intersection` collects what is known of quorums and partial quorums.
-/

namespace Conclave

namespace Thresholds

theorem quorum_add_faulty (n : ℕ) : (ofSize n).quorum + (ofSize n).faulty = n := by
  simp only [ofSize, faulty]
  omega

/-- The numbers of members that may be faulty are those below a third of all. -/
theorem le_faulty_iff {n k : ℕ} (h : 0 < n) : k ≤ (ofSize n).faulty ↔ 3 * k < n := by
  simp only [ofSize, faulty]
  omega

theorem isGreatest_faulty {n : ℕ} (h : 0 < n) : IsGreatest {k | 3 * k < n} (ofSize n).faulty :=
  ⟨(le_faulty_iff h).1 le_rfl, fun _ hk => (le_faulty_iff h).2 hk⟩

end Thresholds

namespace Committee

variable {S : Scheme} (c : Committee S)

/-- The names of the members. -/
def names : Finset OperatorId := (c.members.map Member.id).toFinset

theorem nodup_ids : (c.members.map Member.id).Nodup := by
  rw [List.Nodup, List.pairwise_map]
  refine c.sorted.imp fun {a b} h he => ?_
  rw [he] at h
  exact UInt64.lt_irrefl _ h

@[simp] theorem card_names : c.names.card = c.size := by
  rw [names, List.toFinset_card_of_nodup c.nodup_ids, List.length_map, size]

theorem quorum_add_faulty : c.quorum + c.thresholds.faulty = c.size :=
  Thresholds.quorum_add_faulty c.size

theorem partialQuorum_eq : c.partialQuorum = c.thresholds.faulty + 1 := rfl

variable {c}

theorem mem_names {id : OperatorId} : id ∈ c.names ↔ c.contains id = true := by
  simp [names, contains, get?]

theorem size_pos_of_mem_names {id : OperatorId} (h : id ∈ c.names) : 0 < c.size := by
  rw [← c.card_names]
  exact Finset.card_pos.2 ⟨id, h⟩

theorem three_mul_faulty_lt (hc : 0 < c.size) : 3 * c.thresholds.faulty < c.size :=
  (Thresholds.le_faulty_iff hc).1 le_rfl

/-- Every quorum is a partial quorum. -/
theorem partialQuorum_le_quorum (hc : 0 < c.size) : c.partialQuorum ≤ c.quorum := by
  have hq := c.quorum_add_faulty
  have h3 := three_mul_faulty_lt hc
  rw [partialQuorum_eq]
  omega

theorem quorum_pos (hc : 0 < c.size) : 0 < c.quorum := by
  have hle := partialQuorum_le_quorum hc
  rw [partialQuorum_eq] at hle
  omega

/-! ### Sets of members -/

section Sets

variable {A B F : Finset OperatorId}

/-- A set of members is a quorum exactly if it lacks no more members than may be faulty. -/
theorem quorum_le_card_iff (hA : A ⊆ c.names) :
    c.quorum ≤ A.card ↔ (c.names \ A).card ≤ c.thresholds.faulty := by
  have hall := Finset.card_sdiff_add_card_eq_card hA
  rw [card_names] at hall
  have hq := c.quorum_add_faulty
  omega

/-- The members that are not faulty are a quorum. -/
theorem quorum_le_card_sdiff (hF : F.card ≤ c.thresholds.faulty) :
    c.quorum ≤ (c.names \ F).card := by
  have hsplit : c.names.card ≤ (c.names \ F).card + F.card := Finset.card_le_card_sdiff_add_card
  rw [card_names] at hsplit
  have hq := c.quorum_add_faulty
  omega

/-- Two quorums share more members than may be faulty. -/
theorem faulty_lt_card_inter (hc : 0 < c.size) (hA : A ⊆ c.names) (hB : B ⊆ c.names)
    (hqA : c.quorum ≤ A.card) (hqB : c.quorum ≤ B.card) :
    c.thresholds.faulty < (A ∩ B).card := by
  have hunion : (A ∪ B).card ≤ c.size := by
    rw [← c.card_names]
    exact Finset.card_le_card (Finset.union_subset hA hB)
  have hsum := Finset.card_union_add_card_inter A B
  have hq := c.quorum_add_faulty
  have h3 := three_mul_faulty_lt hc
  omega

/-- Two quorums share a member that is not faulty. -/
theorem exists_mem_inter (hc : 0 < c.size) (hA : A ⊆ c.names) (hB : B ⊆ c.names)
    (hqA : c.quorum ≤ A.card) (hqB : c.quorum ≤ B.card) (hF : F.card ≤ c.thresholds.faulty) :
    ∃ id, id ∈ A ∧ id ∈ B ∧ id ∉ F := by
  have hlt : F.card < (A ∩ B).card := hF.trans_lt (faulty_lt_card_inter hc hA hB hqA hqB)
  obtain ⟨id, hid, hnot⟩ := Finset.exists_mem_notMem_of_card_lt_card hlt
  obtain ⟨hidA, hidB⟩ := Finset.mem_inter.1 hid
  exact ⟨id, hidA, hidB, hnot⟩

/-- A partial quorum has a member that is not faulty. -/
theorem exists_mem_notMem (hA : c.partialQuorum ≤ A.card) (hF : F.card ≤ c.thresholds.faulty) :
    ∃ id ∈ A, id ∉ F := by
  rw [partialQuorum_eq] at hA
  exact Finset.exists_mem_notMem_of_card_lt_card (hF.trans_lt hA)

/-- Nothing smaller than a partial quorum is sure to have a member that is not faulty. -/
theorem partialQuorum_le_card_iff : c.partialQuorum ≤ A.card ↔
    ∀ F : Finset OperatorId, F.card ≤ c.thresholds.faulty → ∃ id ∈ A, id ∉ F := by
  refine ⟨fun hA F hF => exists_mem_notMem hA hF, fun hall => ?_⟩
  by_contra hfew
  -- all of the set may be faulty
  have hA : A.card ≤ c.thresholds.faulty := by
    rw [partialQuorum_eq] at hfew
    omega
  obtain ⟨id, hid, hnot⟩ := hall A hA
  exact hnot hid

end Sets

/-- Any two quorums share more members than may be faulty, so at least one outside every set of that
many members. A set is a partial quorum exactly if it has a member outside every such set. A set of
members is a quorum exactly if it lacks no more than may be faulty; in particular the members
outside such a set are one. Every quorum is a partial quorum, and no larger number of faulty members
is below a third of all. -/
theorem quorum_intersection (hc : 0 < c.size) :
    (∀ A ⊆ c.names, ∀ B ⊆ c.names,
        c.thresholds.isQuorum A.card = true → c.thresholds.isQuorum B.card = true →
          c.thresholds.faulty + 1 ≤ (A ∩ B).card ∧
            ∀ F : Finset OperatorId, F.card ≤ c.thresholds.faulty → ∃ id ∈ A ∩ B, id ∉ F) ∧
      (∀ A : Finset OperatorId, c.thresholds.isPartialQuorum A.card = true ↔
        ∀ F : Finset OperatorId, F.card ≤ c.thresholds.faulty → ∃ id ∈ A, id ∉ F) ∧
      (∀ A ⊆ c.names, c.thresholds.isQuorum A.card = true ↔
        (c.names \ A).card ≤ c.thresholds.faulty) ∧
      (∀ F ⊆ c.names, F.card = c.thresholds.faulty →
        (c.names \ F).card = c.size - c.thresholds.faulty ∧
          c.thresholds.isQuorum (c.names \ F).card = true) ∧
      (∀ members, c.thresholds.isQuorum members = true →
        c.thresholds.isPartialQuorum members = true) ∧
      IsGreatest {k | 3 * k < c.size} c.thresholds.faulty := by
  simp only [isQuorum_iff, isPartialQuorum_iff]
  refine ⟨fun A hA B hB hqA hqB => ⟨faulty_lt_card_inter hc hA hB hqA hqB, fun F hF => ?_⟩,
    fun A => partialQuorum_le_card_iff, fun A hA => quorum_le_card_iff hA,
    fun F hsub hF => ⟨?_, quorum_le_card_sdiff hF.le⟩, fun members hquorum => ?_,
    Thresholds.isGreatest_faulty hc⟩
  · obtain ⟨id, hidA, hidB, hnot⟩ := exists_mem_inter hc hA hB hqA hqB hF
    exact ⟨id, Finset.mem_inter.2 ⟨hidA, hidB⟩, hnot⟩
  · rw [Finset.card_sdiff_of_subset hsub, card_names, hF]
  · exact (partialQuorum_le_quorum hc).trans hquorum

/-- Of six members one may be faulty, as two would be a third. Two quorums of five leave members 3
to 6 in common, and one of these is not the faulty one. -/
theorem quorum_intersection_of_six :
    let c : Committee .plain :=
      ⟨[1, 2, 3, 4, 5, 6].map fun (n : UInt64) => ⟨⟨n⟩, n⟩, by decide⟩
    let ids (l : List UInt64) : Finset OperatorId := (l.map OperatorId.mk).toFinset
    0 < c.size ∧ 2 ≤ (ids [2, 3, 4, 5, 6] ∩ ids [1, 3, 4, 5, 6]).card ∧
      (∃ id ∈ ids [2, 3, 4, 5, 6] ∩ ids [1, 3, 4, 5, 6], id ∉ ids [3]) ∧
      c.thresholds.isQuorum (c.names \ ids [3]).card = true ∧
      IsGreatest {k | 3 * k < 6} 1 := by
  intro c ids
  have hsize : 0 < c.size := by decide
  obtain ⟨hinter, -, -, houtside, -, hgreatest⟩ := quorum_intersection hsize
  obtain ⟨hshared, hhonest⟩ := hinter (ids [2, 3, 4, 5, 6]) (by decide) (ids [1, 3, 4, 5, 6])
    (by decide) (by decide) (by decide)
  have hfaulty : c.thresholds.faulty = 1 := by decide
  rw [hfaulty] at hshared hgreatest
  exact ⟨hsize, hshared, hhonest (ids [3]) (by decide),
    (houtside (ids [3]) (by decide) (by decide)).2, hgreatest⟩

end Committee
end Conclave
