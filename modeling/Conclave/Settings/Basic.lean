import Conclave.Settings.Timeouts

/-!
# Settings

What an operator of a node may choose: the round at which instances give up, how many instances a
node remembers, and how long a round may last.
-/

namespace Conclave

/-- The settings of a node. -/
structure Settings where
  /-- The first round that is too high for an instance to take part in. -/
  roundCutoff : UInt64
  /-- The number of the most recent instances that a node keeps. -/
  historyCapacity : UInt64
  timeouts : Timeouts
  deriving DecidableEq

namespace Settings

/-- Round 15 is too high, and five instances are kept. -/
def default : Settings := ⟨15, 5, Timeouts.default⟩

/-- What makes settings useless. -/
inductive Defect
  /-- The first round is too high already. -/
  | roundCutoff
  /-- No instance is kept. -/
  | historyCapacity
  deriving DecidableEq

/-- The text that tells of a defect. -/
def Defect.message : Defect → String
  | .roundCutoff => "invalid configuration: round_cutoff must be at least 2"
  | .historyCapacity => "invalid configuration: history_capacity must be positive"

/-- Looks for a defect of the settings. -/
def validate (s : Settings) : Except Defect Unit :=
  if s.roundCutoff < 2 then .error .roundCutoff
  else if s.historyCapacity = 0 then .error .historyCapacity
  else .ok ()

end Settings
end Conclave
