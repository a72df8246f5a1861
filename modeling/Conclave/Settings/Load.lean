import Conclave.Settings.Basic
import Conclave.Settings.Toml

/-!
# Loading settings

Settings come from a TOML document and from the variables of the environment, which take
precedence. A variable counts if its name begins with `QBFT__`; two underscores in the rest of the
name lead into a table, so that `QBFT__TIMEOUTS__QUICK` sets the quick timeout. Upper and lower case
do not differ in keys and names. What is not set keeps its default, and unknown keys are ignored.
-/

namespace Conclave
namespace Settings

/-- Why settings could not be loaded. -/
inductive LoadError
  /-- There is no document, or it is no TOML, or a setting is not of its type. -/
  | unreadable
  /-- The settings have a defect. -/
  | invalid (defect : Defect)
  /-- Reading the settings ran into a fault. -/
  | fault (cause : Fault)
  deriving DecidableEq

/-! ### The environment -/

/-- The prefix of the variables that count. -/
def variablePrefix : String := "QBFT"

/-- What separates the prefix and the parts of the name of a variable. -/
def separator : List Char := ['_', '_']

/-- A text with each pair of underscores, from the left, turned into a point. -/
def dotted : List Char → List Char
  | '_' :: '_' :: rest => '.' :: dotted rest
  | c :: rest => c :: dotted rest
  | [] => []

/-- The key that a variable sets, if it counts. -/
def variableKey? (name : String) : Option String :=
  let start := (variablePrefix.toList ++ separator).map Setting.lowerChar
  let chars := name.toList.map Setting.lowerChar
  if start.isPrefixOf chars then some (String.ofList (dotted (chars.drop start.length))) else none

/-- The setting that the text of a variable stands for. -/
def variableSetting (text : String) : Setting :=
  let name := text.map Char.toLower
  if name = "true" then .boolean true
  else if name = "false" then .boolean false
  else
    match Setting.signed? text with
    | some n => .integer n
    | none =>
      match Setting.float? text with
      | some x => .float x
      | none => .text text

/-! ### From a tree of settings -/

/-- Reads a setting, or takes a default if there is none. -/
def getOr {α : Type} (read : Setting → Except ReadError α) (missing : α) :
    Option Setting → Except ReadError α
  | none => .ok missing
  | some setting => read setting

/-- The timeouts that settings of their parts stand for. -/
def ofParts (quick slow quickRounds : Option Setting) : Except ReadError Timeouts := do
  let missing := Timeouts.default
  return {
    quick := ← getOr Setting.duration missing.quick quick
    slow := ← getOr Setting.duration missing.slow slow
    quickRounds := ← getOr Setting.natural missing.quickRounds quickRounds }

/-- The timeouts that a setting stands for: a table of their parts, or a list in the order `quick`,
`slow`, `quick_rounds`. -/
def readTimeouts : Setting → Except ReadError Timeouts
  | .table entries =>
    ofParts (entries.lookup "quick") (entries.lookup "slow") (entries.lookup "quick_rounds")
  | .list items => ofParts items[0]? items[1]? items[2]?
  | _ => .error .malformed

/-- The settings that the entries of the root table stand for. -/
def ofEntries (entries : List (String × Setting)) : Except ReadError Settings := do
  let missing := Settings.default
  return {
    roundCutoff := ← getOr Setting.natural missing.roundCutoff (entries.lookup "round_cutoff")
    historyCapacity := ← getOr Setting.natural missing.historyCapacity
      (entries.lookup "history_capacity")
    timeouts := ← getOr readTimeouts missing.timeouts (entries.lookup "timeouts") }

/-! ### Loading -/

/-- A tree of settings with entries assigned. -/
def assignAll (root : Setting) (entries : List (String × Setting)) : Except Fault Setting :=
  entries.foldlM (fun root (key, value) => root.assign key value) root

/-- The entries that the variables of an environment set. -/
def ofEnvironment (environment : List (String × String)) : List (String × Setting) :=
  environment.filterMap fun (name, text) =>
    (variableKey? name).map fun key => (key, variableSetting text)

/-- The tree of settings that the entries of a document and an environment make up. -/
def tree (entries : List (String × Setting)) (environment : List (String × String)) :
    Except Fault Setting := do
  let root ← assignAll (.table []) entries
  assignAll root (ofEnvironment environment)

/-- What stops the loading after a failed reading. -/
def ofReadError : ReadError → LoadError
  | .malformed => .unreadable
  | .fault cause => .fault cause

/-- The settings that a document, if there is one, and an environment stand for. -/
def load (document : Option String) (environment : List (String × String)) :
    Except LoadError Settings := do
  let entries ← (document.bind Toml.parse?).elim (.error .unreadable) .ok
  let root ← (tree entries environment).mapError .fault
  let settings ← (ofEntries root.entries).mapError ofReadError
  settings.validate.mapError .invalid
  return settings

end Settings
end Conclave
