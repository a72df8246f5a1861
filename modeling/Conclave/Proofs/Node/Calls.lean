import Conclave.Proofs.Node.Decisions

/-!
# Calls of a node

A call is an event of a node together with the network and the disk that the node has while it
lasts, so that each may fail at any call. `play` is what becomes of a node on some calls; `along`
collects what there is to tell of each of them, such as the messages that were stored.
-/

namespace Conclave
namespace Node

variable {S : Scheme}

/-- An event of a node, and what surrounds the node on it. -/
structure Call (S : Scheme) where
  env : Surroundings S
  event : Event S

namespace Call

/-- What a node does on a call. -/
def step (seat : Seat S) (n : Node S) (c : Call S) : Step S (Node S) Error (Answer S) :=
  Node.step seat c.env n c.event

/-- The call with a network that takes everything. -/
def overReliable (c : Call S) : Call S := { c with env := ⟨.reliable S, c.env.disk⟩ }

/-- The call with a disk that does not fail. -/
def onReliable (c : Call S) : Call S := { c with env := ⟨c.env.network, .reliable⟩ }

end Call

/-- What becomes of a node on some calls. -/
def play (seat : Seat S) (n : Node S) (calls : List (Call S)) : Node S :=
  calls.foldl (fun n c => (c.step seat n).state) n

/-- What there is to tell of each of some calls, in their order. -/
def along {α : Type} (tell : Node S → Call S → List α) (seat : Seat S) (n : Node S) :
    List (Call S) → List α
  | [] => []
  | c :: rest => tell n c ++ along tell seat (c.step seat n).state rest

variable {seat : Seat S}

theorem play_append (seat : Seat S) (n : Node S) (past rest : List (Call S)) :
    play seat n (past ++ rest) = play seat (play seat n past) rest :=
  List.foldl_append

theorem play_concat (seat : Seat S) (n : Node S) (past : List (Call S)) (c : Call S) :
    play seat n (past ++ [c]) = (c.step seat (play seat n past)).state :=
  play_append seat n past [c]

theorem along_concat {α : Type} (tell : Node S → Call S → List α) (seat : Seat S) (n : Node S)
    (past : List (Call S)) (c : Call S) :
    along tell seat n (past ++ [c]) =
      along tell seat n past ++ tell (play seat n past) c := by
  induction past generalizing n with
  | nil => exact List.append_nil _
  | cons x past ih =>
    rw [List.cons_append, along, along, ih, List.append_assoc]
    rfl

/-- Some calls make a run. -/
theorem exists_run (seat : Seat S) (capacity : ℕ) (archive : Archive S) (calls : List (Call S)) :
    ∃ t, Run seat capacity archive t ∧ t.state = play seat (new capacity archive) calls := by
  induction calls using List.reverseRecOn with
  | nil => exact ⟨_, .new, rfl⟩
  | append_singleton past c ih =>
    obtain ⟨t, ht, hstate⟩ := ih
    refine ⟨_, ht.next c.env c.event, ?_⟩
    rw [play_concat, ← hstate]
    rfl

end Node
end Conclave
