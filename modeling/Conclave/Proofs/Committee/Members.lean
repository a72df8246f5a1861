import Conclave.Proofs.Committee.Quorum
import Conclave.Proofs.PlainScheme
import Mathlib.Data.List.Destutter

/-!
# The members of a committee

A committee is determined by what is found under each name (`Committee.eq_of_get?`). Under a name is
found the first member of the list that the committee is built from that has it
(`Committee.get?_ofMembers`). So it makes no difference how the list is put in order: to insert one
member after the other gives the same as to sort the list, equal names in the order they come, and
then to drop each member whose name is the one before it (`Committee.members_ofMembers`).

As the names are strictly ascending, a member can be looked up by halving (`Committee.bisect_eq`).
-/

namespace Conclave

/-! ### The order of names -/

namespace OperatorId

theorem le_trans {a b c : OperatorId} (h : a ≤ b) (h' : b ≤ c) : a ≤ c := UInt64.le_trans h h'

theorem le_total (a b : OperatorId) : a ≤ b ∨ b ≤ a := UInt64.le_total a.word b.word

theorem le_antisymm {a b : OperatorId} (h : a ≤ b) (h' : b ≤ a) : a = b :=
  congrArg OperatorId.mk (UInt64.le_antisymm h h')

theorem ne_of_lt {a b : OperatorId} (h : a < b) : a ≠ b := fun heq =>
  UInt64.ne_of_lt h (congrArg OperatorId.word heq)

theorem lt_of_le_of_ne {a b : OperatorId} (h : a ≤ b) (hne : a ≠ b) : a < b :=
  UInt64.lt_of_le_of_ne h fun heq => hne (congrArg OperatorId.mk heq)

/-- Names in ascending order differ if neighbours do. -/
theorem nodup_of_isChain {names : List OperatorId} (hsorted : names.Pairwise fun a b => a ≤ b)
    (hchain : names.IsChain (· ≠ ·)) : names.Nodup := by
  induction names with
  | nil => exact List.nodup_nil
  | cons a rest ih =>
    obtain ⟨hle, hrest⟩ := List.pairwise_cons.1 hsorted
    cases rest with
    | nil => exact List.nodup_singleton a
    | cons b rest =>
      obtain ⟨hne, hchain⟩ := List.isChain_cons_cons.1 hchain
      refine List.nodup_cons.2 ⟨fun hmem => ?_, ih hrest hchain⟩
      -- all that follows the neighbour is at or above it
      rcases List.mem_cons.1 hmem with heq | hmem
      · exact hne heq
      · have hba : b ≤ a := (List.pairwise_cons.1 hrest).1 a hmem
        exact hne (le_antisymm (hle b List.mem_cons_self) hba)

section Sorting

variable {α : Type} (key : α → OperatorId)

theorem le_trans_key (a b c : α) (hab : decide (key a ≤ key b) = true)
    (hbc : decide (key b ≤ key c) = true) : decide (key a ≤ key c) = true := by
  rw [decide_eq_true_eq] at hab hbc ⊢
  exact le_trans hab hbc

theorem le_total_key (a b : α) : (decide (key a ≤ key b) || decide (key b ≤ key a)) = true := by
  simpa using le_total (key a) (key b)

theorem pairwise_mergeSort (l : List α) :
    (l.mergeSort fun a b => key a ≤ key b).Pairwise fun a b => key a ≤ key b :=
  (List.pairwise_mergeSort (le_trans_key key) (le_total_key key) l).imp of_decide_eq_true

/-- Sorting by names keeps the order of what has the same name. -/
theorem filter_mergeSort (l : List α) (id : OperatorId) :
    ((l.mergeSort fun a b => key a ≤ key b).filter fun a => key a = id) =
      l.filter fun a => key a = id := by
  have hsub : (l.filter fun a => key a = id).Sublist (l.mergeSort fun a b => key a ≤ key b) := by
    refine List.sublist_mergeSort (le_trans_key key) (le_total_key key) ?_ List.filter_sublist
    refine List.pairwise_of_forall_mem_list fun a ha b hb => ?_
    simp only [List.mem_filter, decide_eq_true_eq] at ha hb
    rw [ha.2, hb.2, decide_eq_true_eq]
    exact UInt64.le_refl _
  have hkept := hsub.filter fun a => key a = id
  rw [List.filter_filter] at hkept
  simp only [Bool.and_self] at hkept
  have hperm := List.mergeSort_perm l fun a b => key a ≤ key b
  exact (hkept.eq_of_length (hperm.filter _).length_eq.symm).symm

end Sorting

end OperatorId

namespace Committee

variable {S : Scheme} {c : Committee S} {l l' : List (Member S)} {m : Member S}

/-! ### Lookups -/

/-- Under distinct names each member is found under its own. -/
theorem find?_eq_some_iff (h : (l.map Member.id).Nodup) (id : OperatorId) :
    l.find? (fun m => m.id = id) = some m ↔ m ∈ l ∧ m.id = id := by
  constructor
  · intro hm
    exact ⟨List.mem_of_find?_eq_some hm, by simpa using List.find?_some hm⟩
  · rintro ⟨hm, rfl⟩
    have hfound : (l.find? fun n => n.id = m.id).isSome = true :=
      List.find?_isSome.2 ⟨m, hm, decide_eq_true rfl⟩
    obtain ⟨n, hn⟩ := Option.isSome_iff_exists.1 hfound
    have hname : n.id = m.id := by simpa using List.find?_some hn
    rw [hn, List.inj_on_of_nodup_map h (List.mem_of_find?_eq_some hn) hm hname]

/-- The member with a name is the one that has it. -/
theorem get?_eq_some_iff {id : OperatorId} : c.get? id = some m ↔ m ∈ c.members ∧ m.id = id :=
  find?_eq_some_iff c.nodup_ids id

/-- A member at any position is the one that is found under its name. -/
theorem get?_of_at? {i : ℕ} (h : c.at? i = some m) : c.get? m.id = some m :=
  get?_eq_some_iff.2 ⟨List.mem_of_getElem? h, rfl⟩

/-- A committee is determined by what is found under each name. -/
theorem eq_of_get? {c d : Committee S} (h : ∀ id, c.get? id = d.get? id) : c = d := by
  have hmem : ∀ m, m ∈ c.members ↔ m ∈ d.members := by
    intro m
    have hfound : c.get? m.id = some m ↔ d.get? m.id = some m := by rw [h]
    simpa [get?_eq_some_iff] using hfound
  have hperm : c.members.Perm d.members :=
    (List.perm_ext_iff_of_nodup (List.Nodup.of_map _ c.nodup_ids)
      (List.Nodup.of_map _ d.nodup_ids)).2 hmem
  have hsame : c.members = d.members :=
    hperm.eq_of_pairwise (fun a b _ _ hab hba => absurd hba (UInt64.lt_asymm hab)) c.sorted d.sorted
  obtain ⟨members, sorted⟩ := c
  subst hsame
  rfl

/-! ### Building a committee -/

/-- A member that is put into a list is found behind those that have its name already. -/
theorem find?_insert (m : Member S) (h : l.Pairwise fun a b => a.id < b.id) (id : OperatorId) :
    (m.insert l).find? (fun n => n.id = id) = (l ++ [m]).find? fun n => n.id = id := by
  induction l with
  | nil => rfl
  | cons n rest ih =>
    obtain ⟨hn, hrest⟩ := List.pairwise_cons.1 h
    unfold Member.insert
    split
    · rename_i hlt
      by_cases hm : m.id = id
      -- all names of the list are above this one
      · have hnone : (n :: rest).find? (fun n => n.id = id) = none := by
          refine List.find?_eq_none.2 fun x hx => ?_
          have hx : m.id < x.id := by
            rcases List.mem_cons.1 hx with rfl | hx
            · exact hlt
            · exact UInt64.lt_trans hlt (hn x hx)
          simpa [← hm] using (OperatorId.ne_of_lt hx).symm
        rw [List.find?_append, hnone, List.find?_cons_of_pos (by simp [hm])]
        simp [hm]
      · rw [List.find?_append, List.find?_cons_of_neg (by simp [hm])]
        simp [hm]
    · split
      · rename_i hsame
        by_cases hm : n.id = id
        · simp [hm]
        · simp [hm, hsame]
      · by_cases hm : n.id = id
        · simp [hm]
        · simpa [hm] using ih hrest

theorem get?_ofMembers (l : List (Member S)) (id : OperatorId) :
    (ofMembers l).get? id = l.find? fun m => m.id = id := by
  suffices h : ∀ sorted : List (Member S), sorted.Pairwise (fun a b => a.id < b.id) →
      (l.foldl (fun sorted m => m.insert sorted) sorted).find? (fun m => m.id = id) =
        (sorted ++ l).find? fun m => m.id = id from h [] List.Pairwise.nil
  induction l with
  | nil =>
    intro sorted _
    rw [List.append_nil, List.foldl_nil]
  | cons m rest ih =>
    intro sorted hsorted
    rw [List.foldl_cons, ih _ (pairwise_insert m hsorted), List.find?_append,
      find?_insert m hsorted, ← List.find?_append, List.append_assoc, List.singleton_append]

theorem get?_ofMembers_eq_none_iff {id : OperatorId} :
    (ofMembers l).get? id = none ↔ ∀ m ∈ l, m.id ≠ id := by
  simp [get?_ofMembers, List.find?_eq_none]

theorem names_ofMembers (l : List (Member S)) :
    (ofMembers l).names = (l.map Member.id).toFinset := by
  ext id
  rw [mem_names, contains, get?_ofMembers]
  simp

/-- Members with distinct names make up the same committee in any order. -/
theorem ofMembers_perm (hperm : l'.Perm l) (h : (l.map Member.id).Nodup) :
    ofMembers l' = ofMembers l := by
  refine eq_of_get? fun id => ?_
  have h' : (l'.map Member.id).Nodup := (hperm.map Member.id).nodup_iff.2 h
  ext m
  rw [get?_ofMembers, get?_ofMembers, find?_eq_some_iff h', find?_eq_some_iff h, hperm.mem_iff]

/-! ### Sorting -/

/-- A list sorted by name, members of one name in the order they come. -/
def sortedByName (l : List (Member S)) : List (Member S) := l.mergeSort fun a b => a.id ≤ b.id

/-- A list of which each member is dropped that has the name of the one before it. -/
def dropRepeated (l : List (Member S)) : List (Member S) := l.destutter fun a b => a.id ≠ b.id

section Sorting

variable (l : List (Member S))

theorem find?_sortedByName (id : OperatorId) :
    (sortedByName l).find? (fun m => m.id = id) = l.find? fun m => m.id = id := by
  rw [← List.head?_filter, ← List.head?_filter, sortedByName, OperatorId.filter_mergeSort]

theorem find?_dropRepeated (id : OperatorId) :
    (dropRepeated l).find? (fun m => m.id = id) = l.find? fun m => m.id = id := by
  cases l with
  | nil => rfl
  | cons m rest =>
    show (rest.destutter' _ m).find? _ = _
    induction rest generalizing m with
    | nil => rfl
    | cons n rest ih =>
      rw [List.destutter'_cons]
      split
      · by_cases hm : m.id = id
        · simp [hm]
        · simpa [hm] using ih n
      · rename_i hsame
        rw [ih m]
        by_cases hm : m.id = id
        · simp [hm]
        · simp_all

theorem pairwise_dropRepeated (h : l.Pairwise fun a b => a.id ≤ b.id) :
    (dropRepeated l).Pairwise fun a b => a.id < b.id := by
  have hle := h.sublist (List.destutter_sublist (fun a b => a.id ≠ b.id) l)
  have hchain : ((dropRepeated l).map Member.id).IsChain (· ≠ ·) :=
    (List.isChain_map _).2 (List.isChain_destutter _ l)
  have hnodup := OperatorId.nodup_of_isChain (List.pairwise_map.2 hle) hchain
  exact (hle.and (List.pairwise_map.1 hnodup)).imp fun hab => OperatorId.lt_of_le_of_ne hab.1 hab.2

/-- The members of a committee are its list, sorted and without repeated names. -/
theorem members_ofMembers : (ofMembers l).members = dropRepeated (sortedByName l) := by
  have hsorted := pairwise_dropRepeated _ (OperatorId.pairwise_mergeSort Member.id l)
  have hsame : ofMembers l = ⟨dropRepeated (sortedByName l), hsorted⟩ := by
    refine eq_of_get? fun id => ?_
    rw [get?_ofMembers, get?, find?_dropRepeated, find?_sortedByName]
  rw [hsame]

end Sorting

/-! ### Halving -/

/-- Looks up a name in a list by comparing it with the one in the middle. -/
def bisect (id : OperatorId) (l : List (Member S)) : Option (Member S) :=
  if h : l = [] then none
  else
    have hmiddle : l.length / 2 < l.length :=
      Nat.div_lt_self (List.length_pos_iff.2 h) (Nat.lt_succ_self 1)
    let m := l[l.length / 2]
    if m.id = id then some m
    else if m.id < id then bisect id (l.drop (l.length / 2 + 1))
    else bisect id (l.take (l.length / 2))
termination_by l.length
decreasing_by
  · rw [List.length_drop]
    omega
  · rw [List.length_take]
    omega

/-- A name is above all up to a member with a smaller one, and below all from one with a larger. -/
theorem find?_around (h : l.Pairwise fun a b => a.id < b.id) {i : ℕ} (hi : i < l.length)
    {id : OperatorId} (hne : l[i].id ≠ id) :
    l.find? (fun m => m.id = id) =
      if l[i].id < id then (l.drop (i + 1)).find? fun m => m.id = id
      else (l.take i).find? fun m => m.id = id := by
  have hsplit : l.take i ++ l[i] :: l.drop (i + 1) = l := by
    rw [List.getElem_cons_drop, List.take_append_drop]
  have hfind : l.find? (fun m => m.id = id) =
      ((l.take i).find? fun m => m.id = id).or ((l.drop (i + 1)).find? fun m => m.id = id) := by
    rw [← hsplit, List.find?_append, List.find?_cons_of_neg (by simpa using hne), hsplit]
  rw [← hsplit, List.pairwise_append, List.pairwise_cons] at h
  obtain ⟨-, ⟨hafter, -⟩, hbefore⟩ := h
  rw [hfind]
  split
  · rename_i hlt
    have hnone : (l.take i).find? (fun m => m.id = id) = none := by
      refine List.find?_eq_none.2 fun x hx => ?_
      have hx : x.id < id := UInt64.lt_trans (hbefore x hx _ List.mem_cons_self) hlt
      simpa using OperatorId.ne_of_lt hx
    rw [hnone, Option.none_or]
  · rename_i hnot
    have hlt : id < l[i].id :=
      OperatorId.lt_of_le_of_ne (UInt64.not_lt.1 hnot) (Ne.symm hne)
    have hnone : (l.drop (i + 1)).find? (fun m => m.id = id) = none := by
      refine List.find?_eq_none.2 fun x hx => ?_
      have hx : id < x.id := UInt64.lt_trans hlt (hafter x hx)
      simpa using (OperatorId.ne_of_lt hx).symm
    rw [hnone, Option.or_none]

/-- Halving finds what is found by looking at one member after the other. -/
theorem bisect_eq (id : OperatorId) (h : l.Pairwise fun a b => a.id < b.id) :
    bisect id l = l.find? fun m => m.id = id := by
  fun_induction bisect id l with
  | case1 => rfl
  | case2 l hne hmiddle m hm =>
    have hnodup : (l.map Member.id).Nodup :=
      List.pairwise_map.2 (h.imp OperatorId.ne_of_lt)
    exact ((find?_eq_some_iff hnodup id).2 ⟨List.getElem_mem hmiddle, hm⟩).symm
  | case3 l hne hmiddle m hm hlt ih =>
    rw [ih (h.sublist (List.drop_sublist _ l)), find?_around h hmiddle hm, if_pos hlt]
  | case4 l hne hmiddle m hm hlt ih =>
    rw [ih (h.sublist (List.take_sublist _ l)), find?_around h hmiddle hm, if_neg hlt]

/-- The members of a committee are in strictly ascending order of their names. Under a name is found
the first member of the list that has it, and none exactly if no member has it; by halving or at the
right position the same is found. The quorums are those of the number of names. Without repeated
names the order of the list is of no account. -/
theorem ofMembers_exact (l : List (Member S)) :
    (ofMembers l).members = dropRepeated (sortedByName l) ∧
      (ofMembers l).members.Pairwise (fun a b => a.id < b.id) ∧
      (∀ id, (ofMembers l).get? id = l.find? fun m => m.id = id) ∧
      (∀ id, (ofMembers l).get? id = none ↔ ∀ m ∈ l, m.id ≠ id) ∧
      (∀ id, bisect id (ofMembers l).members = (ofMembers l).get? id) ∧
      (∀ i m, (ofMembers l).at? i = some m → (ofMembers l).get? m.id = some m) ∧
      (∀ id, (ofMembers l).contains id = true ↔ ∃ m, (ofMembers l).get? id = some m) ∧
      (ofMembers l).thresholds = Thresholds.ofSize (l.map Member.id).toFinset.card ∧
      (ofMembers l).quorum = (Thresholds.ofSize (l.map Member.id).toFinset.card).quorum ∧
      ∀ l' : List (Member S), l'.Perm l → (l.map Member.id).Nodup →
        ofMembers l' = ofMembers l := by
  have hsize : (ofMembers l).thresholds = Thresholds.ofSize (l.map Member.id).toFinset.card := by
    rw [thresholds, ← card_names, names_ofMembers]
  refine ⟨members_ofMembers l, (ofMembers l).sorted, get?_ofMembers l,
    fun _ => get?_ofMembers_eq_none_iff, fun id => bisect_eq id (ofMembers l).sorted,
    fun _ _ => get?_of_at?, fun id => ?_, hsize, congrArg Thresholds.quorum hsize, ?_⟩
  · exact Option.isSome_iff_exists
  · intro l' hperm hnodup
    exact ofMembers_perm hperm hnodup

/-- Of two members with one name the first counts, and two names can be swapped. -/
theorem ofMembers_of_repeated :
    let member (id key : UInt64) : Member .plain := ⟨⟨id⟩, key⟩
    let l := [member 3 30, member 1 10, member 3 31, member 2 20]
    (ofMembers l).get? ⟨3⟩ = some (member 3 30) ∧ (ofMembers l).quorum = 3 ∧
      ofMembers [member 2 20, member 1 10] = ofMembers [member 1 10, member 2 20] := by
  intro member l
  obtain ⟨-, -, hget, -, -, -, -, -, hquorum, -⟩ := ofMembers_exact l
  obtain ⟨-, -, -, -, -, -, -, -, -, hperm⟩ := ofMembers_exact [member 1 10, member 2 20]
  exact ⟨(hget ⟨3⟩).trans rfl, hquorum.trans (by decide),
    hperm [member 2 20, member 1 10] (.swap _ _ []) (by decide)⟩

end Committee
end Conclave
