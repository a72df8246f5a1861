import Conclave.Fault
import Conclave.Number

/-!
# Checks in a row

Validation, encoding and decoding are chains of checks over `Except`. The lemmas here say when such
a chain succeeds, and which errors it may have (`FailsOnly`), one link at a time, so that no later
proof opens the monad. Rounds and heights are compared through their values, as natural numbers.
-/

namespace Conclave

section Chain

variable {ε ε' α β : Type}

@[simp] theorem pure_eq_ok (a : α) : (pure a : Except ε α) = .ok a := rfl

@[simp] theorem throw_eq_error (e : ε) : (throw e : Except ε α) = .error e := rfl

@[simp] theorem ok_bind (a : α) (f : α → Except ε β) : (Except.ok a >>= f) = f a := rfl

@[simp] theorem error_bind (e : ε) (f : α → Except ε β) :
    ((Except.error e : Except ε α) >>= f) = .error e := rfl

theorem bind_eq_ok_iff {x : Except ε α} {f : α → Except ε β} {b : β} :
    (x >>= f) = .ok b ↔ ∃ a, x = .ok a ∧ f a = .ok b := by
  cases x <;> simp

theorem bind_congr_ok {x : Except ε α} {f g : α → Except ε β} (h : ∀ a, x = .ok a → f a = g a) :
    (x >>= f) = (x >>= g) := by
  cases x with
  | error e => rfl
  | ok a => exact h a rfl

theorem isOk_iff {x : Except ε α} : x.isOk = true ↔ ∃ a, x = .ok a := by
  cases x <;> simp [Except.isOk, Except.toBool]

/-- A check yields nothing but its success. -/
theorem exists_unit_iff {p : Unit → Prop} : (∃ a, p a) ↔ p () :=
  ⟨fun ⟨_, h⟩ => h, fun h => ⟨(), h⟩⟩

theorem map_eq_ok_iff {x : Except ε α} {f : α → β} {b : β} :
    (f <$> x) = .ok b ↔ ∃ a, x = .ok a ∧ f a = b := by
  cases x <;> simp [Functor.map, Except.map]

theorem map_eq_error_iff {x : Except ε α} {f : α → β} {e : ε} :
    x.map f = .error e ↔ x = .error e := by
  cases x <;> simp [Except.map]

theorem mapError_eq_ok_iff {x : Except ε α} {f : ε → ε'} {a : α} :
    x.mapError f = .ok a ↔ x = .ok a := by
  cases x with
  | error e => exact ⟨nofun, nofun⟩
  | ok b =>
    constructor
    · rintro ⟨⟩
      rfl
    · rintro ⟨⟩
      rfl

theorem ite_error_eq_ok_iff {c : Prop} [Decidable c] {e : ε} {x : Except ε α} {a : α} :
    (if c then Except.error e else x) = .ok a ↔ ¬ c ∧ x = .ok a := by
  by_cases h : c <;> simp [h]

theorem ite_else_error_eq_ok_iff {c : Prop} [Decidable c] {e : ε} {x : Except ε α} {a : α} :
    (if c then x else Except.error e) = .ok a ↔ c ∧ x = .ok a := by
  by_cases h : c <;> simp [h]

theorem forM_eq_ok_iff {xs : List α} {f : α → Except ε Unit} :
    xs.forM f = .ok () ↔ ∀ x ∈ xs, f x = .ok () := by
  induction xs with
  | nil => simp [List.forM]
  | cons x xs ih =>
    change (f x >>= fun _ => xs.forM f) = _ ↔ _
    rw [bind_eq_ok_iff, exists_unit_iff, ih, List.forall_mem_cons]

end Chain

/-- A chain fails only with errors of a kind. -/
def FailsOnly {ε α : Type} (P : ε → Prop) (x : Except ε α) : Prop := ∀ e, x = .error e → P e

namespace FailsOnly

variable {ε ε' α β : Type} {P Q : ε → Prop}

theorem ok (a : α) : FailsOnly P (.ok a) := nofun

theorem error_iff {e : ε} : FailsOnly P (.error e : Except ε α) ↔ P e :=
  ⟨fun h => h e rfl, fun h _ he => Except.error.inj he ▸ h⟩

theorem error {e : ε} (h : P e) : FailsOnly P (.error e : Except ε α) := error_iff.2 h

theorem mono {x : Except ε α} (h : FailsOnly P x) (hPQ : ∀ e, P e → Q e) : FailsOnly Q x :=
  fun e he => hPQ e (h e he)

theorem bind {x : Except ε α} {f : α → Except ε β} (hx : FailsOnly P x)
    (hf : ∀ a, x = .ok a → FailsOnly P (f a)) : FailsOnly P (x >>= f) := by
  cases x with
  | error e => exact error (error_iff.1 hx)
  | ok a => exact hf a rfl

theorem map {x : Except ε α} (h : FailsOnly P x) (f : α → β) : FailsOnly P (x.map f) := by
  cases x with
  | error e => exact error (error_iff.1 h)
  | ok a => exact ok (f a)

/-- A check that ends the chain or lets it go on. -/
theorem guard {c : Prop} [Decidable c] {e : ε} {x : Except ε α} (he : P e)
    (hx : ¬ c → FailsOnly P x) : FailsOnly P (if c then .error e else x) := by
  by_cases h : c
  · rw [if_pos h]
    exact error he
  · rw [if_neg h]
    exact hx h

/-- An error of another layer is of the kind if it is wrapped as one of them. -/
theorem mapError {x : Except ε' α} {g : ε' → ε} (hg : ∀ e, P (g e)) :
    FailsOnly P (x.mapError g) := by
  cases x with
  | error e => exact error (hg e)
  | ok a => exact ok a

theorem forM {xs : List α} {f : α → Except ε Unit} (h : ∀ x ∈ xs, FailsOnly P (f x)) :
    FailsOnly P (ForM.forM xs f) := by
  induction xs with
  | nil => exact ok ()
  | cons x xs ih =>
    obtain ⟨hx, hxs⟩ := List.forall_mem_cons.1 h
    rw [List.forM_cons]
    exact hx.bind fun _ _ => ih hxs

theorem mapM {xs : List α} {f : α → Except ε β} (h : ∀ x ∈ xs, FailsOnly P (f x)) :
    FailsOnly P (xs.mapM f) := by
  induction xs with
  | nil => exact ok []
  | cons x xs ih =>
    obtain ⟨hx, hxs⟩ := List.forall_mem_cons.1 h
    rw [List.mapM_cons]
    exact hx.bind fun _ _ => (ih hxs).bind fun _ _ => ok _

end FailsOnly

/-- A sum of 64-bit numbers that is in range is the sum of their values. -/
theorem sum?_eq_ok {m n k : UInt64} (h : sum? m n = .ok k) : k.toNat = m.toNat + n.toNat := by
  unfold sum? at h
  split at h
  · rename_i hlt
    obtain rfl := Except.ok.inj h
    rw [UInt64.toNat_add]
    exact Nat.mod_eq_of_lt hlt
  · cases h

namespace Round

theorem le_iff {a b : Round} : a ≤ b ↔ a.toNat ≤ b.toNat := UInt64.le_iff_toNat_le

theorem lt_iff {a b : Round} : a < b ↔ a.toNat < b.toNat := UInt64.lt_iff_toNat_lt

theorem toNat_inj {a b : Round} : a.toNat = b.toNat ↔ a = b := by
  cases a
  cases b
  simp [toNat, UInt64.toNat_inj]

@[simp] theorem toNat_first : first.toNat = 1 := rfl

theorem next?_eq_ok {r next : Round} (h : r.next? = .ok next) : next.toNat = r.toNat + 1 := by
  obtain ⟨word, hword, rfl⟩ := map_eq_ok_iff.1 h
  exact sum?_eq_ok hword

end Round

namespace Height

theorem le_iff {a b : Height} : a ≤ b ↔ a.toNat ≤ b.toNat := UInt64.le_iff_toNat_le

theorem lt_iff {a b : Height} : a < b ↔ a.toNat < b.toNat := UInt64.lt_iff_toNat_lt

theorem toNat_inj {a b : Height} : a.toNat = b.toNat ↔ a = b := by
  cases a
  cases b
  simp [toNat, UInt64.toNat_inj]

theorem next?_eq_ok {h next : Height} (hnext : h.next? = .ok next) :
    next.toNat = h.toNat + 1 := by
  obtain ⟨word, hword, rfl⟩ := map_eq_ok_iff.1 hnext
  exact sum?_eq_ok hword

end Height

end Conclave
