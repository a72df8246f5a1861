import Conclave.Proofs.Timer.Delivery

/-!
# A timer made of tasks

A timer can be run on tasks that sleep: one is spawned for each timeout that is asked for and
delivers it on waking up. The timer only keeps the handle of the last one. It does not learn when
that task has ended, so what it aborts later may be a task that is over.

`Pool.Mirrors` relates such a timer to one that holds its pending timeout itself, and every command
keeps them so (`Pool.Mirrors.step`). So a handle that is out of date does no harm: the same timeouts
are delivered, and no two tasks are asleep at once (`delivered_exact`).
-/

namespace Conclave
namespace Timer

/-- A task: it sleeps until the deadline of a timeout, and then delivers it. -/
structure Task where
  handle : ℕ
  alarm : Alarm

/-- A timer made of tasks. The slot has the height and the handle of the task that was spawned last,
whether it still sleeps or not, unless that height was cancelled. -/
structure Pool where
  timeouts : Timeouts
  sleep : Sleep
  now : ℕ
  spawned : ℕ
  sleeping : List Task
  slot : Option (Height × ℕ)

namespace Pool

/-- No task is spawned. -/
def new (timeouts : Timeouts) (sleep : Sleep) : Pool := ⟨timeouts, sleep, 0, 0, [], none⟩

/-- Ends a task, if it still sleeps. -/
def abort (p : Pool) (handle : ℕ) : Pool :=
  { p with sleeping := p.sleeping.filter fun task => task.handle ≠ handle }

/-- Spawns a task, and aborts the one that is in the slot. -/
def schedule (p : Pool) (height : Height) (round : Round) : Pool :=
  let task : Task := ⟨p.spawned, ⟨height, round, p.now + wait p.sleep p.timeouts round⟩⟩
  let q : Pool :=
    { p with
      spawned := p.spawned + 1
      sleeping := p.sleeping ++ [task]
      slot := some (height, task.handle) }
  match p.slot with
  | some (_, previous) => q.abort previous
  | none => q

/-- Empties the slot and aborts its task, if it is of the given height. -/
def cancel (p : Pool) (height : Height) : Pool :=
  match p.slot with
  | some (other, handle) => if other = height then { p with slot := none }.abort handle else p
  | none => p

/-- Wakes up the tasks whose deadline is reached by a time, in the order of their deadlines. -/
def advanceTo (p : Pool) (time : ℕ) : Pool × List Alarm :=
  ({ p with now := time, sleeping := p.sleeping.filter fun task => time < task.alarm.deadline },
    ((p.sleeping.map Task.alarm).filter fun a => a.deadline ≤ time).mergeSort
      fun a b => a.deadline ≤ b.deadline)

/-- A command is obeyed, and the tasks whose time is then reached wake up. -/
def step (p : Pool) : Command → Pool × List Alarm
  | .schedule height round => (p.schedule height round).advanceTo p.now
  | .cancel height => (p.cancel height).advanceTo p.now
  | .pass span => p.advanceTo (p.now + span.nanoseconds)

/-- The tasks after commands. -/
def after (p : Pool) (commands : List Command) : Pool :=
  commands.foldl (fun p c => (p.step c).1) p

/-- What the tasks deliver while commands are obeyed, in this order. -/
def delivered (p : Pool) : List Command → List Alarm
  | [] => []
  | c :: rest => (p.step c).2 ++ (p.step c).1.delivered rest

/-- The tasks that sleep are those of what is pending: the one in the slot, or none. -/
structure Mirrors (p : Pool) (t : Timer) : Prop where
  timeouts : p.timeouts = t.timeouts
  sleep : p.sleep = t.sleep
  now : p.now = t.now
  sleeping : p.sleeping.map Task.alarm = t.pending.toList
  slot : ∀ task ∈ p.sleeping, p.slot = some (task.alarm.height, task.handle)
  spawned : ∀ height handle, p.slot = some (height, handle) → handle < p.spawned

variable {p : Pool} {t : Timer} {time : ℕ}

/-- With nothing in the slot, no task sleeps. -/
theorem Mirrors.sleeping_of_slot_none (h : p.Mirrors t) (hslot : p.slot = none) :
    p.sleeping = [] := by
  refine List.eq_nil_iff_forall_not_mem.2 fun task htask => ?_
  rw [h.slot task htask] at hslot
  cases hslot

/-- Aborting the task in the slot leaves none asleep, whether or not it was over. -/
theorem Mirrors.sleeping_abort (h : p.Mirrors t) {height : Height} {handle : ℕ}
    (hslot : p.slot = some (height, handle)) :
    p.sleeping.filter (fun task => task.handle ≠ handle) = [] := by
  refine List.filter_eq_nil_iff.2 fun task htask => ?_
  rw [h.slot task htask, Option.some.injEq, Prod.mk.injEq] at hslot
  simp [hslot.2]

/-- The height in the slot is that of what is pending, as long as anything is. -/
theorem Mirrors.height_of_pending (h : p.Mirrors t) {height : Height} {handle : ℕ} {a : Alarm}
    (hslot : p.slot = some (height, handle)) (ha : t.pending = some a) : a.height = height := by
  have hmem : a ∈ p.sleeping.map Task.alarm := by simp [h.sleeping, ha]
  obtain ⟨task, htask, rfl⟩ := List.mem_map.1 hmem
  rw [h.slot task htask, Option.some.injEq, Prod.mk.injEq] at hslot
  exact hslot.1

theorem Mirrors.pending_of_slot_none (h : p.Mirrors t) (hslot : p.slot = none) :
    t.pending = none := by
  have hsleeping := h.sleeping
  rw [h.sleeping_of_slot_none hslot] at hsleeping
  exact Option.toList_eq_nil_iff.1 hsleeping.symm

/-- Once a task is spawned, no other one sleeps. -/
theorem Mirrors.schedule_eq (h : p.Mirrors t) (height : Height) (round : Round) :
    p.schedule height round =
      { p with
        spawned := p.spawned + 1
        sleeping := [⟨p.spawned, ⟨height, round, p.now + wait p.sleep p.timeouts round⟩⟩]
        slot := some (height, p.spawned) } := by
  unfold Pool.schedule
  cases hslot : p.slot with
  | none => simp [h.sleeping_of_slot_none hslot]
  | some last =>
    obtain ⟨other, previous⟩ := last
    -- the handle in the slot is older than the one of the task
    have hnew : p.spawned ≠ previous := Nat.ne_of_gt (h.spawned other previous hslot)
    simp only [abort, List.filter_append, h.sleeping_abort hslot]
    simp [hnew]

theorem Mirrors.schedule (h : p.Mirrors t) (height : Height) (round : Round) :
    (p.schedule height round).Mirrors (t.schedule height round) := by
  rw [h.schedule_eq]
  constructor
  · exact h.timeouts
  · exact h.sleep
  · exact h.now
  · show [Alarm.mk height round (p.now + wait p.sleep p.timeouts round)] = _
    rw [h.now, h.sleep, h.timeouts]
    rfl
  · intro task htask
    rw [List.mem_singleton.1 htask]
  · intro other handle hslot
    obtain ⟨-, rfl⟩ := Prod.mk.inj (Option.some.inj hslot)
    exact Nat.lt_succ_self _

theorem Mirrors.cancel (h : p.Mirrors t) (height : Height) :
    (p.cancel height).Mirrors (t.cancel height) := by
  unfold Pool.cancel
  cases hslot : p.slot with
  | none =>
    have hnone := h.pending_of_slot_none hslot
    rwa [cancel_eq_self fun a ha => nomatch hnone.symm.trans ha]
  | some last =>
    obtain ⟨other, handle⟩ := last
    dsimp only
    by_cases hheight : other = height
    · have hsleeping : ({ p with slot := none }.abort handle).sleeping = [] :=
        h.sleeping_abort hslot
      have hpending : (t.cancel height).pending = none := by
        refine Option.filter_eq_none_iff.2 fun a ha => ?_
        simp [h.height_of_pending hslot ha, hheight]
      rw [if_pos hheight]
      constructor
      · exact h.timeouts
      · exact h.sleep
      · exact h.now
      · rw [hsleeping, hpending]
        rfl
      · rw [hsleeping]
        exact fun _ htask => absurd htask List.not_mem_nil
      · exact fun _ _ hnone => nomatch hnone
    · rw [if_neg hheight, cancel_eq_self fun a ha => h.height_of_pending hslot ha ▸ hheight]
      exact h

theorem Mirrors.advanceTo (h : p.Mirrors t) (htime : t.now ≤ time) :
    (p.advanceTo time).1.Mirrors (t.advanceTo time).1 ∧
      (p.advanceTo time).2 = (t.advanceTo time).2.toList := by
  rw [advanceTo_eq htime]
  refine ⟨⟨h.timeouts, h.sleep, rfl, ?_, ?_, h.spawned⟩, ?_⟩
  · show (p.sleeping.filter ((fun a : Alarm => decide (time < a.deadline)) ∘ Task.alarm)).map _ = _
    rw [← List.filter_map, h.sleeping, Option.toList_filter]
  · exact fun task htask => h.slot task (List.mem_filter.1 htask).1
  · show ((p.sleeping.map Task.alarm).filter _).mergeSort _ = _
    rw [h.sleeping, ← Option.toList_filter]
    cases t.pending.filter fun a => decide (a.deadline ≤ time) with
    | none => exact List.mergeSort_nil
    | some a => exact List.mergeSort_singleton a

/-- A command is obeyed by both alike, and what is delivered is the same. -/
theorem Mirrors.step (h : p.Mirrors t) (c : Command) :
    (p.step c).1.Mirrors (t.step c).1 ∧ (p.step c).2 = (t.step c).2.toList := by
  cases c with
  | schedule height round =>
    simp only [Pool.step, Timer.step, h.now]
    exact (h.schedule height round).advanceTo (Nat.le_refl _)
  | cancel height =>
    simp only [Pool.step, Timer.step, h.now]
    exact (h.cancel height).advanceTo (Nat.le_refl _)
  | pass span =>
    simp only [Pool.step, Timer.step, h.now]
    exact h.advanceTo (Nat.le_add_right _ _)

theorem Mirrors.after (h : p.Mirrors t) (commands : List Command) :
    (p.after commands).Mirrors (t.after commands) := by
  induction commands generalizing p t with
  | nil => exact h
  | cons c rest ih => exact ih (h.step c).1

theorem Mirrors.delivered (h : p.Mirrors t) (commands : List Command) :
    p.delivered commands = t.delivered commands := by
  induction commands generalizing p t with
  | nil => rfl
  | cons c rest ih => rw [Pool.delivered, Timer.delivered, (h.step c).2, ih (h.step c).1]

end Pool

end Timer
end Conclave
