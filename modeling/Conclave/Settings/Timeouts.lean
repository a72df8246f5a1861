import Conclave.Number

/-!
# Round timeouts

How long a round may last: the first rounds are quick, those above a bound are slow. Durations are
counted in nanoseconds.
-/

namespace Conclave

/-- A span of time in nanoseconds. -/
structure Duration where
  nanoseconds : Nat
  deriving DecidableEq

namespace Duration

/-- A number of milliseconds. -/
def ofMilliseconds (n : Nat) : Duration := ⟨n * 1000000⟩

/-- A number of seconds. -/
def ofSeconds (n : Nat) : Duration := ⟨n * 1000000000⟩

/-- The whole milliseconds of a span. -/
def milliseconds (d : Duration) : Nat := d.nanoseconds / 1000000

end Duration

/-- The timeouts of the rounds. -/
structure Timeouts where
  /-- The timeout of the rounds up to `quickRounds`. -/
  quick : Duration
  /-- The timeout of the rounds above. -/
  slow : Duration
  /-- The last quick round. -/
  quickRounds : UInt64
  deriving DecidableEq

namespace Timeouts

/-- Two seconds up to round 8, two minutes above. -/
def default : Timeouts := ⟨Duration.ofSeconds 2, Duration.ofSeconds 120, 8⟩

/-- The timeout of a round. -/
def duration (t : Timeouts) (round : Round) : Duration :=
  if round.word ≤ t.quickRounds then t.quick else t.slow

end Timeouts
end Conclave
