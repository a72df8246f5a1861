import Conclave.Message.Basic
import Mathlib.Order.Lattice

/-!
# The shape of messages on the wire

Any message can carry any others in memory. On the wire a proposal carries round changes and
prepares, a round change that reports a preparation carries prepares, and nothing else carries
anything.

* `Shaped` are the messages of this shape, at every depth;
* `depth` is the number of messages that are nested; in a shaped message it is at most three
  (`Shaped.depth_le_three`).
-/

namespace Conclave
namespace Wire

variable {S : Scheme}

/-- A message of the shape that the wire has room for. -/
inductive Shaped : SignedMessage S → Prop
  | intro {m : SignedMessage S}
      /- Round changes are carried by proposals only. -/
      (roundChanges_place : m.message.roundChanges ≠ [] → m.type = .propose)
      (roundChanges_type : ∀ x ∈ m.message.roundChanges, x.type = .roundChange)
      (roundChanges_shaped : ∀ x ∈ m.message.roundChanges, Shaped x)
      /- Prepares are carried by proposals, and by round changes with a preparation. -/
      (prepares_place : m.message.prepares ≠ [] →
        m.type = .propose ∨ m.type = .roundChange ∧ ∃ r, m.message.preparedRound? = some r)
      (prepares_type : ∀ x ∈ m.message.prepares, x.type = .prepare)
      (prepares_shaped : ∀ x ∈ m.message.prepares, Shaped x)
      (prepared_pos : ∀ r, m.message.preparedRound? = some r → r.word ≠ 0) : Shaped m

/-- A message that carries nothing is shaped. -/
theorem Shaped.of_carries_nothing {m : SignedMessage S}
    (hroundChanges : m.message.roundChanges = []) (hprepares : m.message.prepares = [])
    (hpos : ∀ r, m.message.preparedRound? = some r → r.word ≠ 0) : Shaped m := by
  refine .intro (absurd hroundChanges) ?_ ?_ (absurd hprepares) ?_ ?_ hpos
  · rw [hroundChanges]
    nofun
  · rw [hroundChanges]
    nofun
  · rw [hprepares]
    nofun
  · rw [hprepares]
    nofun

/-- The number of levels that a message of some kind takes. -/
def levels : MessageType → ℕ
  | .propose => 3
  | .roundChange => 2
  | .prepare => 1
  | .commit => 1

theorem levels_le (type : MessageType) : levels type ≤ 3 := by
  cases type <;> decide

theorem levels_pos (type : MessageType) : 0 < levels type := by
  cases type <;> decide

/-- What a shaped message carries is shaped, and takes fewer levels. -/
theorem Shaped.carried {m x : SignedMessage S} (h : Shaped m)
    (hx : x ∈ m.message.roundChanges ∨ x ∈ m.message.prepares) :
    Shaped x ∧ levels x.type < levels m.type := by
  obtain ⟨hroundChanges, hroundChangesType, hroundChangesShaped, hprepares, hpreparesType,
    hpreparesShaped, -⟩ := h
  rcases hx with hx | hx
  · have htype : m.type = .propose := hroundChanges (List.ne_nil_of_mem hx)
    refine ⟨hroundChangesShaped x hx, ?_⟩
    rw [hroundChangesType x hx, htype]
    decide
  · refine ⟨hpreparesShaped x hx, ?_⟩
    rw [hpreparesType x hx]
    rcases hprepares (List.ne_nil_of_mem hx) with htype | ⟨htype, -⟩
    · rw [htype]
      decide
    · rw [htype]
      decide

mutual

/-- The number of nested messages. -/
def depth : SignedMessage S → ℕ
  | ⟨message, _, _⟩ => messageDepth message + 1

/-- The depth of the messages that a message carries. -/
def messageDepth : Message S (SignedMessage S) → ℕ
  | ⟨_, _, _, body⟩ => bodyDepth body

/-- The depth of the messages that a body carries. -/
def bodyDepth : Body S (SignedMessage S) → ℕ
  | .propose _ roundChanges prepares => max (listDepth roundChanges) (listDepth prepares)
  | .prepare _ => 0
  | .commit _ => 0
  | .roundChange _ prepares => listDepth prepares

/-- The greatest depth in a list. -/
def listDepth : List (SignedMessage S) → ℕ
  | [] => 0
  | m :: ms => max (depth m) (listDepth ms)

end

theorem listDepth_le {ms : List (SignedMessage S)} {n : ℕ} (h : ∀ m ∈ ms, depth m ≤ n) :
    listDepth ms ≤ n := by
  induction ms with
  | nil => exact Nat.zero_le n
  | cons m ms ih =>
    obtain ⟨hm, hms⟩ := List.forall_mem_cons.1 h
    exact max_le hm (ih hms)

/-- A shaped message is nested no deeper than its kind allows. -/
theorem Shaped.depth_le {m : SignedMessage S} (h : Shaped m) : depth m ≤ levels m.type := by
  induction h with
  | @intro m _ hroundChanges _ _ hprepares _ _ ihRoundChanges ihPrepares =>
    obtain ⟨⟨identifier, height, round, body⟩, signers, signatures⟩ := m
    have hcarried : listDepth (Message.prepares ⟨identifier, height, round, body⟩) ≤ 1 :=
      listDepth_le fun x hx => by
        have := ihPrepares x hx
        rwa [hprepares x hx] at this
    have hasked : listDepth (Message.roundChanges ⟨identifier, height, round, body⟩) ≤ 2 :=
      listDepth_le fun x hx => by
        have := ihRoundChanges x hx
        rwa [hroundChanges x hx] at this
    cases body with
    | propose value roundChanges prepares =>
      exact Nat.succ_le_succ (max_le hasked (hcarried.trans (by decide)))
    | prepare root => exact le_rfl
    | commit root => exact le_rfl
    | roundChange prepared prepares => exact Nat.succ_le_succ hcarried

/-- At most three messages are nested in a shaped one. -/
theorem Shaped.depth_le_three {m : SignedMessage S} (h : Shaped m) : depth m ≤ 3 :=
  h.depth_le.trans (levels_le m.type)

end Wire
end Conclave
