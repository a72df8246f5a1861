import Conclave.Scheme
import Conclave.Threshold

/-!
# Committees

The members that decide together. A committee is built from a list of members in any order; its
members are sorted by name, and of several members with one name the first of the list counts.
-/

namespace Conclave

/-- A member of a committee: its name and the key that verifies its signatures. -/
structure Member (S : Scheme) where
  id : OperatorId
  publicKey : S.PublicKey

instance (S : Scheme) : DecidableEq (Member S) := fun a b =>
  decidable_of_iff (a.id = b.id ∧ a.publicKey = b.publicKey)
    (by cases a; cases b; simp)

/-- Put a member into a list sorted by name, unless its name is taken. -/
def Member.insert {S : Scheme} (m : Member S) : List (Member S) → List (Member S)
  | [] => [m]
  | n :: rest =>
    if m.id < n.id then m :: n :: rest
    else if m.id = n.id then n :: rest
    else n :: m.insert rest

/-- A committee: its members, in strictly ascending order of their names. -/
structure Committee (S : Scheme) where
  members : List (Member S)
  sorted : members.Pairwise (fun a b => a.id < b.id)

namespace Committee

variable {S : Scheme}

theorem mem_insert {m x : Member S} {l : List (Member S)} (h : x ∈ m.insert l) :
    x = m ∨ x ∈ l := by
  induction l with
  | nil => simpa [Member.insert] using h
  | cons n rest ih =>
    unfold Member.insert at h
    split at h
    · simpa using h
    · split at h
      · exact .inr h
      · rcases List.mem_cons.1 h with rfl | h
        · simp
        · rcases ih h with rfl | h <;> simp [*]

theorem pairwise_insert (m : Member S) {l : List (Member S)}
    (h : l.Pairwise (fun a b => a.id < b.id)) :
    (m.insert l).Pairwise (fun a b => a.id < b.id) := by
  induction l with
  | nil => simp [Member.insert]
  | cons n rest ih =>
    rw [List.pairwise_cons] at h
    unfold Member.insert
    split
    · rename_i hlt
      refine List.pairwise_cons.2 ⟨fun x hx => ?_, List.pairwise_cons.2 h⟩
      rcases List.mem_cons.1 hx with rfl | hx
      · exact hlt
      · exact UInt64.lt_trans hlt (h.1 x hx)
    · split
      · exact List.pairwise_cons.2 h
      · rename_i hlt hne
        refine List.pairwise_cons.2 ⟨fun x hx => ?_, ih h.2⟩
        rcases mem_insert hx with rfl | hx
        · refine (UInt64.lt_or_lt_of_ne (fun he => hne ?_)).resolve_left hlt
          cases hx : x.id; cases hn : n.id; simp_all
        · exact h.1 x hx

/-- The committee of the given members. -/
def ofMembers (members : List (Member S)) : Committee S where
  members := members.foldl (fun sorted m => m.insert sorted) []
  sorted := by
    suffices h : ∀ sorted : List (Member S), sorted.Pairwise (fun a b => a.id < b.id) →
        (members.foldl (fun sorted m => m.insert sorted) sorted).Pairwise
          (fun a b => a.id < b.id) from h [] List.Pairwise.nil
    induction members with
    | nil => exact fun _ h => h
    | cons m rest ih => exact fun _ h => ih _ (pairwise_insert m h)

/-- The number of members. -/
def size (c : Committee S) : Nat := c.members.length

/-- The member with the given name. -/
def get? (c : Committee S) (id : OperatorId) : Option (Member S) :=
  c.members.find? (fun m => m.id = id)

/-- Whether a member has the given name. -/
def contains (c : Committee S) (id : OperatorId) : Bool := (c.get? id).isSome

/-- The member at the given position. -/
def at? (c : Committee S) (i : Nat) : Option (Member S) := c.members[i]?

/-- The sizes of the quorums. -/
def thresholds (c : Committee S) : Thresholds := Thresholds.ofSize c.size

/-- The number of members that make a quorum. -/
def quorum (c : Committee S) : Nat := c.thresholds.quorum

/-- The number of members that make a partial quorum. -/
def partialQuorum (c : Committee S) : Nat := c.thresholds.partialQuorum

theorem isQuorum_iff {c : Committee S} {members : Nat} :
    c.thresholds.isQuorum members = true ↔ c.quorum ≤ members := decide_eq_true_iff

theorem isPartialQuorum_iff {c : Committee S} {members : Nat} :
    c.thresholds.isPartialQuorum members = true ↔ c.partialQuorum ≤ members := decide_eq_true_iff

end Committee
end Conclave
