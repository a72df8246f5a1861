import Conclave.Settings.Timeouts

/-!
# Texts of durations

A duration is written as numbers with units of time, such as `1m 30s`.

* `Duration.text` uses years, months, days, hours, minutes, seconds and the thousandths below, each
  unit at most once and in descending order;
* `Duration.parse` takes the parts in any order and number, with or without blanks around them,
  other names for the units, and decimal fractions. Only zero may stand without a unit.

A year has 365.25 days and a month 30.44 days. Nothing may leave the 64-bit numbers on the way.
-/

namespace Conclave

/-- Why a text or a setting cannot be read. -/
inductive ReadError
  /-- It does not have the form it should have. -/
  | malformed
  /-- Reading it runs into a fault. -/
  | fault (cause : Fault)
  deriving DecidableEq

namespace Duration

/-- A unit of time: a number of seconds, or a number of nanoseconds if it is shorter than one. -/
structure Scale where
  seconds : Nat
  nanoseconds : Nat

/-- The unit with a given name. -/
def scale? (name : String) : Option Scale :=
  if name ∈ ["nanos", "nsec", "ns"] then some ⟨0, 1⟩
  else if name ∈ ["usec", "us", "µs"] then some ⟨0, 1000⟩
  else if name ∈ ["millis", "msec", "ms"] then some ⟨0, 1000000⟩
  else if name ∈ ["seconds", "second", "secs", "sec", "s"] then some ⟨1, 0⟩
  else if name ∈ ["minutes", "minute", "min", "mins", "m"] then some ⟨60, 0⟩
  else if name ∈ ["hours", "hour", "hrs", "hr", "h"] then some ⟨3600, 0⟩
  else if name ∈ ["days", "day", "d"] then some ⟨86400, 0⟩
  else if name ∈ ["weeks", "week", "wk", "wks", "w"] then some ⟨604800, 0⟩
  else if name ∈ ["months", "month", "M"] then some ⟨2630016, 0⟩
  else if name ∈ ["years", "year", "yr", "yrs", "y"] then some ⟨31557600, 0⟩
  else none

/-! ### Reading -/

/-- A number, if it is in range. -/
def inRange (n : Nat) : Except ReadError Nat :=
  if n < UInt64.size then .ok n else .error .malformed

/-- Whether a character is a blank of Unicode. -/
def isBlank (c : Char) : Bool :=
  let n := c.toNat
  (9 ≤ n && n ≤ 13) || n = 0x20 || n = 0x85 || n = 0xA0 || n = 0x1680 ||
    (0x2000 ≤ n && n ≤ 0x200A) || n = 0x2028 || n = 0x2029 || n = 0x202F || n = 0x205F ||
    n = 0x3000

/-- Whether a character may stand in the name of a unit. -/
def isUnitLetter (c : Char) : Bool := c.isAlpha || c = 'µ'

/-- The number with one more decimal digit. -/
def shift (n : Nat) (c : Char) : Except ReadError Nat := inRange (10 * n + (c.toNat - 48))

/-- A number read from a text: its whole part, the digits of its fraction as a number over a power
of ten, and the rest of the text. -/
structure Amount where
  whole : Nat
  numerator : Nat
  denominator : Nat
  rest : List Char

/-- The fraction of a number, up to the unit that follows it. -/
def fraction (whole numerator denominator : Nat) : List Char → Except ReadError Amount
  | [] =>
    if denominator = 1 then .error .malformed else .ok ⟨whole, numerator, denominator, []⟩
  | c :: rest =>
    if c.isDigit then do
      let denominator ← inRange (10 * denominator)
      let numerator ← shift numerator c
      fraction whole numerator denominator rest
    else if isBlank c then fraction whole numerator denominator rest
    else if isUnitLetter c ∧ denominator ≠ 1 then .ok ⟨whole, numerator, denominator, c :: rest⟩
    else .error .malformed

/-- A number, up to the unit that follows it. Blanks between the digits do not count. -/
def amount (whole : Nat) : List Char → Except ReadError Amount
  | [] => .ok ⟨whole, 0, 1, []⟩
  | c :: rest =>
    if c.isDigit then do
      let whole ← shift whole c
      amount whole rest
    else if isBlank c then amount whole rest
    else if isUnitLetter c then .ok ⟨whole, 0, 1, c :: rest⟩
    else if c = '.' then fraction whole 0 1 rest
    else .error .malformed

/-- A duration with seconds and nanoseconds added to it. The nanoseconds are summed first, and what
is above a second is carried over to the seconds. A sum of exactly one second is not: if it takes the
duration out of range, this is a fault. -/
def extend (d : Duration) (seconds nanoseconds : Nat) : Except ReadError Duration := do
  let seconds ← inRange seconds
  let nanoseconds ← inRange nanoseconds
  let nanoseconds ← inRange (d.nanoseconds % 1000000000 + nanoseconds)
  let carry := if 1000000000 < nanoseconds then nanoseconds / 1000000000 else 0
  let seconds ← inRange (seconds + carry)
  let seconds ← inRange (d.nanoseconds / 1000000000 + seconds)
  let sum := seconds * 1000000000 + (nanoseconds - carry * 1000000000)
  if sum / 1000000000 < UInt64.size then return ⟨sum⟩ else throw (.fault .durationOverflow)

/-- A quotient, if nothing is left over. -/
def exactly (n divisor : Nat) : Except ReadError Nat :=
  if n % divisor = 0 then .ok (n / divisor) else .error .malformed

/-- A duration with a number of units added to it. Fractions of a unit up to the minute are counted
in nanoseconds, those of a longer one in seconds, and they have to be whole. There is no fraction of
a nanosecond. -/
def add (d : Duration) (a : Amount) (name : String) : Except ReadError Duration :=
  match scale? name with
  | none => .error .malformed
  | some unit => do
    let d ← d.extend (a.whole * unit.seconds) (a.whole * unit.nanoseconds)
    if a.denominator = 1 then return d
    if unit.nanoseconds = 1 then throw .malformed
    if 60 < unit.seconds then
      let seconds ← inRange (a.numerator * unit.seconds)
      d.extend (← exactly seconds a.denominator) 0
    else
      let nanoseconds ← inRange (a.numerator * (unit.seconds * 1000000000 + unit.nanoseconds))
      d.extend 0 (← exactly nanoseconds a.denominator)

/-- The parts of a duration, at most `limit` of them, added to it. What follows a unit is looked at
before its part is added. -/
def parts : Nat → Duration → List Char → Except ReadError Duration
  | 0, _, _ => .error .malformed
  | limit + 1, d, text =>
    match text.dropWhile isBlank with
    | [] => .ok d
    | c :: rest =>
      if c.isDigit then do
        let a ← amount 0 (c :: rest)
        let name := String.ofList (a.rest.takeWhile isUnitLetter)
        match a.rest.dropWhile isUnitLetter with
        | [] => d.add a name
        | c :: rest =>
          if c.isDigit ∨ isBlank c then parts limit (← d.add a name) (c :: rest)
          else throw .malformed
      else .error .malformed

/-- The duration that a text stands for. -/
def parse (text : String) : Except ReadError Duration :=
  if text = "0" then .ok ⟨0⟩
  else
    let chars := text.toList
    if chars.all isBlank then .error .malformed else parts (chars.length + 1) ⟨0⟩ chars

/-! ### Writing -/

/-- A part of the text of a duration, unless it is zero. -/
def part (n : Nat) (name : String) : List String :=
  if n = 0 then [] else [Nat.repr n ++ name]

/-- A part with a unit that has a plural. -/
def pluralPart (n : Nat) (name : String) : List String :=
  part n (if 1 < n then name ++ "s" else name)

/-- The text of a duration. -/
def text (d : Duration) : String :=
  if d.nanoseconds = 0 then "0s"
  else
    let seconds := d.nanoseconds / 1000000000
    let nanos := d.nanoseconds % 1000000000
    let ofYear := seconds % 31557600
    let ofMonth := ofYear % 2630016
    let ofDay := ofMonth % 86400
    " ".intercalate
      (pluralPart (seconds / 31557600) "year" ++ pluralPart (ofYear / 2630016) "month" ++
        pluralPart (ofMonth / 86400) "day" ++ part (ofDay / 3600) "h" ++
        part (ofDay % 3600 / 60) "m" ++ part (ofDay % 60) "s" ++ part (nanos / 1000000) "ms" ++
        part (nanos / 1000 % 1000) "us" ++ part (nanos % 1000) "ns")

end Duration
end Conclave
