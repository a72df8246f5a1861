import Conclave.Effect
import Conclave.Settings.Timeouts

/-!
# Round timers

A timer holds at most one pending timeout: scheduling a round replaces the timeout of any other,
and cancelling a height forgets the timeout of that height only. Time is a clock that is moved
explicitly; a timeout fires once its time is reached. How far ahead that is depends also on the
runtime, which may not sleep for as long as it is asked to.
-/

namespace Conclave

/-- A pending timeout: the round it is for and the time at which it fires. -/
structure Alarm where
  height : Height
  round : Round
  deadline : Nat
  deriving DecidableEq

/-- How a runtime sleeps for a span: exactly, or no longer than a longest span. -/
inductive Sleep
  | exact
  | upTo (longest : Duration)
  deriving DecidableEq

namespace Sleep

/-- A runtime that is assumed to sleep for thirty years of 365 days at most. -/
def thirtyYears : Sleep := .upTo (Duration.ofSeconds 946080000)

/-- The nanoseconds after which it wakes up when asked to sleep for a span. -/
def nanoseconds : Sleep → Duration → Nat
  | .exact, span => span.nanoseconds
  | .upTo longest, span => min span.nanoseconds longest.nanoseconds

end Sleep

/-- A timer with its clock, in nanoseconds, in a runtime that sleeps in some way. -/
structure Timer where
  timeouts : Timeouts
  sleep : Sleep
  now : Nat
  pending : Option Alarm

namespace Timer

/-- A timer with nothing pending. -/
def new (timeouts : Timeouts) (sleep : Sleep := .thirtyYears) : Timer := ⟨timeouts, sleep, 0, none⟩

/-- Asks for the timeout of a round. -/
def schedule (t : Timer) (height : Height) (round : Round) : Timer :=
  let deadline := t.now + t.sleep.nanoseconds (t.timeouts.duration round)
  { t with pending := some ⟨height, round, deadline⟩ }

/-- Forgets the pending timeout, if it is of the given height. -/
def cancel (t : Timer) (height : Height) : Timer :=
  { t with pending := t.pending.filter fun a => a.height ≠ height }

/-- The calls of the timer among effects, in order. -/
def apply {S : Scheme} (t : Timer) (effects : List (Effect S)) : Timer :=
  effects.foldl
    (fun t e =>
      match e with
      | .schedule height round => t.schedule height round
      | .cancel height => t.cancel height
      | _ => t) t

/-- The timeout that fires by a time, if there is one, and the timer at the moment it fires. -/
def fire? (t : Timer) (time : Nat) : Option (Alarm × Timer) :=
  t.pending.bind fun a =>
    if a.deadline ≤ time then some (a, { t with now := max t.now a.deadline, pending := none })
    else none

/-- The timer at a later time, and the timeout that fired until then. -/
def advanceTo (t : Timer) (time : Nat) : Timer × Option Alarm :=
  match t.fire? time with
  | some (a, t) => ({ t with now := max t.now time }, some a)
  | none => ({ t with now := max t.now time }, none)

end Timer
end Conclave
