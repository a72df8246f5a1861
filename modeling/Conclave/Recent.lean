import Conclave.Fault

/-!
# Recent entries

A sequence of the most recent entries, the newest first, that never holds more than its capacity.
An entry pushed into a full sequence evicts the oldest one. The capacity is at least one, and room
for all entries is set aside in advance.
-/

namespace Conclave

/-- The most recent entries, the newest first. -/
structure Recent (α : Type) where
  capacity : Nat
  entries : List α
  capacity_pos : 0 < capacity
  length_le : entries.length ≤ capacity

namespace Recent

variable {α : Type}

/-- No entries yet. A capacity of zero counts as one. -/
def empty (capacity : Nat) : Recent α where
  capacity := max capacity 1
  entries := []
  capacity_pos := by omega
  length_le := by simp

/-- No entries yet, if there is room for the capacity with entries of the given size in bytes. -/
def create (capacity entryBytes : Nat) : Except Fault (Recent α) := do
  room? (max capacity 1) entryBytes
  return empty capacity

/-- The sequence with one more entry. -/
def push (r : Recent α) (a : α) : Recent α :=
  { r with
    entries := (a :: r.entries).take r.capacity
    length_le := List.length_take_le .. }

/-- The entry that a push evicts. -/
def evicted? (r : Recent α) : Option α := r.entries[r.capacity - 1]?

/-- The newest entry. -/
def latest? (r : Recent α) : Option α := r.entries.head?

/-- The newest entry with a property. -/
def find? (r : Recent α) (p : α → Bool) : Option α := r.entries.find? p

/-- The list in which the first entry with a property is changed. -/
def updateFirst (p : α → Bool) (f : α → α) : List α → List α
  | [] => []
  | a :: rest => if p a then f a :: rest else a :: updateFirst p f rest

@[simp] theorem length_updateFirst (p : α → Bool) (f : α → α) (l : List α) :
    (updateFirst p f l).length = l.length := by
  induction l with
  | nil => rfl
  | cons a l ih => unfold updateFirst; split <;> simp [*]

/-- The sequence in which the newest entry with a property is changed. -/
def update (r : Recent α) (p : α → Bool) (f : α → α) : Recent α :=
  { r with
    entries := updateFirst p f r.entries
    length_le := by simpa using r.length_le }

/-- The number of entries. -/
def size (r : Recent α) : Nat := r.entries.length

/-- Whether there is no entry. -/
def isEmpty (r : Recent α) : Bool := r.entries.isEmpty

end Recent
end Conclave
