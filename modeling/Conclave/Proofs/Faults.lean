import Conclave.Context.RoundRobin
import Conclave.Effect
import Conclave.Proofs.Checked

/-!
# Faults

An operation over `Except` goes down if it fails with an error that stands for a fault; which errors
do is for each layer to say. The lemmas here follow a chain of checks link by link, as those about
its success do.

Faults come from sums of heights and rounds that leave the 64-bit numbers. There are two such sums:
the round after the current one (`next?_eq_error_iff`), and the position of the member whose turn it
is (`proposerInTurn_eq_ok_iff`).
-/

namespace Conclave

/-- An operation went down: it failed with an error that stands for a fault. -/
def Faults {ε α : Type} (fault? : ε → Option Fault) (x : Except ε α) : Prop :=
  ∃ e f, x = .error e ∧ fault? e = some f

namespace Faults

variable {ε ε' α β : Type} {fault? : ε → Option Fault}

@[simp] theorem not_ok (a : α) : ¬ Faults fault? (.ok a) := nofun

@[simp] theorem error_iff {e : ε} :
    Faults fault? (.error e : Except ε α) ↔ ∃ f, fault? e = some f := by
  constructor
  · rintro ⟨e', f, h, hf⟩
    rw [Except.error.inj h]
    exact ⟨f, hf⟩
  · rintro ⟨f, hf⟩
    exact ⟨e, f, rfl, hf⟩

@[simp] theorem bind_iff {x : Except ε α} {f : α → Except ε β} :
    Faults fault? (x >>= f) ↔ Faults fault? x ∨ ∃ a, x = .ok a ∧ Faults fault? (f a) := by
  cases x <;> simp

@[simp] theorem ite_iff {c : Prop} [Decidable c] {x y : Except ε α} :
    Faults fault? (if c then x else y) ↔ c ∧ Faults fault? x ∨ ¬ c ∧ Faults fault? y := by
  by_cases h : c <;> simp [h]

/-- An error of another layer is no fault if it is wrapped as one of those that are not. -/
theorem not_mapError {x : Except ε' α} {g : ε' → ε} (hg : ∀ e, fault? (g e) = none) :
    ¬ Faults fault? (x.mapError g) := by
  cases x with
  | error e =>
    change ¬ Faults fault? (.error (g e) : Except ε α)
    simp [hg e]
  | ok a => exact not_ok a

/-- A chain whose errors stand for no faults does not go down. -/
theorem not_of_failsOnly {P : ε → Prop} {x : Except ε α} (h : FailsOnly P x)
    (hP : ∀ e, P e → fault? e = none) : ¬ Faults fault? x := by
  rintro ⟨e, f, he, hf⟩
  rw [hP e (h e he)] at hf
  cases hf

/-- An operation that is refused has its error for an answer. -/
theorem refuse_iff {S : Scheme} {σ : Type} {s : σ} {e : ε} :
    Faults fault? (Step.refuse s e : Step S σ ε α).answer ↔
      Faults fault? (.error e : Except ε β) := by
  rw [Step.refuse, error_iff, error_iff]

end Faults

/-! ### Sums -/

theorem sum?_eq_ok_iff {a b : UInt64} :
    (∃ c, sum? a b = .ok c) ↔ a.toNat + b.toNat < UInt64.size := by
  unfold sum?
  split
  · exact iff_of_true ⟨_, rfl⟩ ‹_›
  · exact iff_of_false nofun ‹_›

/-- There is a round after each but the last. -/
theorem Round.next?_eq_error_iff {r : Round} :
    (∃ f, r.next? = .error f) ↔ r.toNat + 1 = UInt64.size := by
  have hlt : r.word.toNat < UInt64.size := r.word.toNat_lt
  have hone : (1 : UInt64).toNat = 1 := rfl
  unfold next? sum? toNat
  rw [hone]
  split
  · refine iff_of_false nofun ?_
    omega
  · refine iff_of_true ⟨_, rfl⟩ ?_
    omega

/-- Whose turn it is can be computed unless the sum of height and round is out of range. -/
theorem Context.proposerInTurn_eq_ok_iff {S : Scheme} {committee : Committee S} {height : Height}
    {round : Round} (hsize : 0 < committee.size) (hround : 1 ≤ round.toNat) :
    (∃ id, proposerInTurn committee height round = .ok id) ↔
      height.toNat + round.toNat < UInt64.size := by
  rw [Height.toNat, Round.toNat, ← sum?_eq_ok_iff]
  unfold proposerInTurn turn
  rw [if_neg (Nat.pos_iff_ne_zero.1 hsize)]
  cases hsum : sum? height.word round.word with
  | error f => simp
  | ok c =>
    -- the round is at least one, so that the difference is in range as well
    have hone : (1 : UInt64).toNat ≤ c.toNat := by
      rw [sum?_eq_ok hsum]
      exact Nat.le_trans hround (Nat.le_add_left _ _)
    have hindex : (c - 1).toNat % committee.size < committee.members.length :=
      Nat.mod_lt _ hsize
    refine iff_of_true ?_ ⟨c, rfl⟩
    simp only [ok_bind, difference?, if_pos hone, pure_eq_ok, Committee.at?,
      List.getElem?_eq_getElem hindex]
    exact ⟨_, rfl⟩

end Conclave
