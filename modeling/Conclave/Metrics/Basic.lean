import Conclave.Metrics.Whole
import Conclave.Number

/-!
# Metrics

What a node counts about itself: instances started, messages by kind and outcome, decisions with
the rounds in which they were reached, failed side effects, and the height it is at.

A family of counters holds one series for each label that was ever counted or read.
-/

namespace Conclave

/-- The kinds of messages that are counted apart. A commit signed by a quorum is a decided
message. -/
inductive MessageKind
  | propose
  | prepare
  | commit
  | roundChange
  | decided
  deriving DecidableEq

/-- What is done about a decision besides deciding. -/
inductive SideEffect
  | persist
  | broadcast
  deriving DecidableEq

/-- A family of counters with labels of type `κ`. -/
structure Family (κ : Type) where
  series : List (κ × Nat)

namespace Family

variable {κ : Type} [DecidableEq κ]

/-- No series. -/
def empty : Family κ := ⟨[]⟩

/-- The count of a label. -/
def count (f : Family κ) (label : κ) : Nat := (f.series.lookup label).getD 0

/-- The family with a series for a label. -/
def ensure (f : Family κ) (label : κ) : Family κ :=
  if (f.series.lookup label).isSome then f else ⟨f.series ++ [(label, 0)]⟩

/-- The family after one more event with a label. -/
def increment (f : Family κ) (label : κ) : Family κ :=
  ⟨(f.ensure label).series.map fun (l, n) => (l, if l = label then n + 1 else n)⟩

end Family

/-- How many decisions there were, by round. -/
structure Histogram where
  /-- The number of decisions in the rounds up to 1, in round 2, …, in round 15, and above. -/
  buckets : List Nat
  /-- The sum of the rounds. -/
  sum : Nat
  /-- The number of decisions. -/
  count : Nat

namespace Histogram

/-- The upper bounds of the buckets but the last. -/
def bounds : List Nat := (List.range 15).map (· + 1)

/-- No decision. -/
def empty : Histogram := ⟨List.replicate 16 0, 0, 0⟩

/-- The position of the bucket that a round falls into. -/
def bucketOf (round : Nat) : Nat := (bounds.takeWhile (· < round)).length

/-- The histogram with one more decision. -/
def observe (h : Histogram) (round : Nat) : Histogram where
  buckets := h.buckets.modify (bucketOf round) (· + 1)
  sum := Whole.add h.sum (Whole.round round)
  count := h.count + 1

end Histogram

/-- The metrics of a node. -/
structure Metrics where
  instancesStarted : Nat
  processed : Family MessageKind
  rejected : Family MessageKind
  decisions : Nat
  decisionRound : Histogram
  sideEffectFailures : Family SideEffect
  height : Height

namespace Metrics

/-- The metrics before anything happened. -/
def empty : Metrics where
  instancesStarted := 0
  processed := Family.empty
  rejected := Family.empty
  decisions := 0
  decisionRound := Histogram.empty
  sideEffectFailures := Family.empty
  height := Height.first

/-- An instance was started. -/
def instanceStarted (m : Metrics) (height : Height) : Metrics :=
  { m with instancesStarted := m.instancesStarted + 1, height }

/-- A message was accepted. -/
def messageProcessed (m : Metrics) (kind : MessageKind) : Metrics :=
  { m with processed := m.processed.increment kind }

/-- A message was rejected. -/
def messageRejected (m : Metrics) (kind : MessageKind) : Metrics :=
  { m with rejected := m.rejected.increment kind }

/-- A decision was reached in a round. -/
def decided (m : Metrics) (round : Round) : Metrics :=
  { m with
    decisions := m.decisions + 1
    decisionRound := m.decisionRound.observe round.toNat }

/-- A side effect of a decision failed. -/
def sideEffectFailed (m : Metrics) (effect : SideEffect) : Metrics :=
  { m with sideEffectFailures := m.sideEffectFailures.increment effect }

/-- The node is at a height. -/
def setHeight (m : Metrics) (height : Height) : Metrics := { m with height }

/-- The number of rejected messages of a kind. Reading it begins its series. -/
def readRejected (m : Metrics) (kind : MessageKind) : Nat × Metrics :=
  (m.rejected.count kind, { m with rejected := m.rejected.ensure kind })

/-- The number of failures of a side effect. Reading it begins its series. -/
def readFailures (m : Metrics) (effect : SideEffect) : Nat × Metrics :=
  (m.sideEffectFailures.count effect,
    { m with sideEffectFailures := m.sideEffectFailures.ensure effect })

end Metrics
end Conclave
