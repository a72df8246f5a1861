import Conclave.Metrics.Basic
import Conclave.Metrics.Digits

/-!
# Exposition of metrics

The metrics in the OpenMetrics text format: for each metric a line with its meaning, a line with
its type, and its samples. All names begin with `qbft_`.
-/

namespace Conclave

/-- The label of a kind of messages. -/
def MessageKind.label : MessageKind → String
  | .propose => "Propose"
  | .prepare => "Prepare"
  | .commit => "Commit"
  | .roundChange => "RoundChange"
  | .decided => "Decided"

/-- The label of a side effect. -/
def SideEffect.label : SideEffect → String
  | .persist => "Persist"
  | .broadcast => "Broadcast"

namespace Metrics

/-- The lines about one metric. -/
def describe (name help type : String) (samples : List String) : List String :=
  ("# HELP qbft_" ++ name ++ " " ++ help ++ ".") :: ("# TYPE qbft_" ++ name ++ " " ++ type) ::
    samples.map ("qbft_" ++ name ++ ·)

/-- The sample of a counter without labels. -/
def total (count : Nat) : List String := ["_total " ++ Nat.repr count]

/-- The samples of a family of counters with one label. -/
def labelled (key : String) (family : List (String × Nat)) : List String :=
  family.map fun (label, count) =>
    "_total\x7b" ++ key ++ "=\"" ++ label ++ "\"\x7d " ++ Nat.repr count

/-- Sums of the beginnings of a list. -/
def cumulative (found : Nat) : List Nat → List Nat
  | [] => []
  | n :: rest => (found + n) :: cumulative (found + n) rest

/-- The samples of a histogram: its sum, its count, and for each bound the number of observations
up to it. -/
def histogramSamples (h : Histogram) : List String :=
  let names := Histogram.bounds.map Whole.text ++ ["+Inf"]
  ("_sum " ++ Whole.text h.sum) :: ("_count " ++ Nat.repr h.count) ::
    (names.zip (cumulative 0 h.buckets)).map fun (bound, count) =>
      "_bucket\x7ble=\"" ++ bound ++ "\"\x7d " ++ Nat.repr count

/-- The text of a height as a signed 64-bit number. -/
def heightText (height : Height) : String := toString height.word.toInt64.toInt

/-- The lines of the exposition. -/
def lines (m : Metrics) : List String :=
  describe "instances_started" "Number of consensus instances started" "counter"
      (total m.instancesStarted) ++
    describe "messages_processed" "Number of consensus messages accepted, by kind" "counter"
      (labelled "kind" (m.processed.series.map fun (k, n) => (k.label, n))) ++
    describe "messages_rejected" "Number of consensus messages rejected, by kind" "counter"
      (labelled "kind" (m.rejected.series.map fun (k, n) => (k.label, n))) ++
    describe "decisions" "Number of decisions reached" "counter" (total m.decisions) ++
    describe "decision_round" "Round in which decisions were reached" "histogram"
      (histogramSamples m.decisionRound) ++
    describe "side_effect_failures" "Number of failures to persist or broadcast a decision"
      "counter" (labelled "effect" (m.sideEffectFailures.series.map fun (e, n) => (e.label, n))) ++
    describe "height" "Height of the latest consensus instance" "gauge"
      [" " ++ heightText m.height] ++
    ["# EOF"]

end Metrics
end Conclave
