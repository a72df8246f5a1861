import Conclave.Settings.DurationText

/-!
# Settings as they are written

A configuration is a tree of tables, lists and plain settings. Whoever reads a setting says of what
type it should be, and a plain setting of another type is converted where that makes sense:

* `natural` takes numbers, truth values, and texts of either;
* `duration` takes texts of durations.

Numbers with a fraction are rounded to the nearest whole number, halves away from zero, and clamped
to the 64-bit numbers.

`assign` sets a part of the tree that a path leads to, such as `timeouts.quick` or `limits[0]`. What
lies on the way and is of another kind is replaced.
-/

namespace Conclave

/-- A part of a configuration. -/
inductive Setting
  | missing
  | text (s : String)
  | integer (n : Int)
  | float (x : Float)
  | boolean (b : Bool)
  | list (items : List Setting)
  | table (entries : List (String × Setting))

namespace Setting

instance : Inhabited Setting := ⟨.missing⟩

/-! ### Numbers in texts -/

/-- The number that a text of decimal digits stands for. -/
def digits? (chars : List Char) : Option Nat :=
  if chars = [] then none
  else chars.foldlM (fun n c => if c.isDigit then some (10 * n + (c.toNat - 48)) else none) 0

/-- The 64-bit number that a text stands for: digits after an optional plus sign. -/
def unsigned? (s : String) : Option UInt64 := do
  let n ← digits? (match s.toList with | '+' :: rest => rest | chars => chars)
  if n < UInt64.size then return UInt64.ofNat n else none

/-- The signed 64-bit number that a text stands for: digits after an optional sign. -/
def signed? (s : String) : Option Int := do
  let n : Int ← match s.toList with
    | '+' :: rest => (digits? rest).map Int.ofNat
    | '-' :: rest => (digits? rest).map fun n => -Int.ofNat n
    | chars => (digits? chars).map Int.ofNat
  if Int64.minValue.toInt ≤ n ∧ n ≤ Int64.maxValue.toInt then return n else none

/-- The number `mantissa * 10 ^ exponent` in double precision. Exponents far out of range are cut,
which changes no result. -/
def decimal (negative : Bool) (mantissa : Nat) (exponent : Int) : Float :=
  let size : Int := (Nat.repr mantissa).length
  let x :=
    if mantissa = 0 ∨ size + exponent < -400 then 0.0
    else if 400 < size + exponent then 1.0 / 0.0
    else if 0 ≤ exponent then Float.ofScientific (mantissa * Nat.pow 10 exponent.toNat) false 0
    else Float.ofScientific mantissa true (-exponent).toNat
  if negative then -x else x

/-- An exponent: the letter `e` and an integer, or nothing at all. -/
def exponent? : List Char → Option Int
  | [] => some 0
  | e :: rest =>
    if e = 'e' ∨ e = 'E' then
      match rest with
      | '+' :: rest => (digits? rest).map Int.ofNat
      | '-' :: rest => (digits? rest).map fun n => -Int.ofNat n
      | rest => (digits? rest).map Int.ofNat
    else none

/-- The number in double precision that a text without a sign stands for: digits with an optional
point among them and an optional exponent, or the name of infinity or of no number. -/
def unsignedFloat? (negative : Bool) (chars : List Char) : Option Float :=
  let name := String.ofList (chars.map Char.toLower)
  if name = "inf" ∨ name = "infinity" then
    some (if negative then -1.0 / 0.0 else 1.0 / 0.0)
  else if name = "nan" then some (0.0 / 0.0)
  else
    let whole := chars.takeWhile Char.isDigit
    let rest := chars.dropWhile Char.isDigit
    let (fraction, rest) :=
      match rest with
      | '.' :: rest => (rest.takeWhile Char.isDigit, rest.dropWhile Char.isDigit)
      | rest => ([], rest)
    match digits? (whole ++ fraction), exponent? rest with
    | some mantissa, some e => some (decimal negative mantissa (e - fraction.length))
    | _, _ => none

/-- The number in double precision that a text stands for. -/
def float? (s : String) : Option Float :=
  match s.toList with
  | '+' :: rest => unsignedFloat? false rest
  | '-' :: rest => unsignedFloat? true rest
  | chars => unsignedFloat? false chars

/-! ### Reading a plain setting -/

/-- The number that a setting stands for. -/
def natural : Setting → Except ReadError UInt64
  | .integer n =>
    if 0 ≤ n ∧ n < UInt64.size then .ok (UInt64.ofNat n.toNat) else .error .malformed
  | .float x => .ok x.round.toUInt64
  | .boolean b => .ok (if b then 1 else 0)
  | .text s =>
    let name := s.map Char.toLower
    if name ∈ ["true", "on", "yes"] then .ok 1
    else if name ∈ ["false", "off", "no"] then .ok 0
    else (unsigned? s).elim (.error .malformed) .ok
  | _ => .error .malformed

/-- The duration that a setting stands for. A number has no unit, so that it is only a duration if
it is zero. -/
def duration : Setting → Except ReadError Duration
  | .text s => Duration.parse s
  | .integer n => if n = 0 then .ok ⟨0⟩ else .error .malformed
  | .float x => if x.toBits = 0 then .ok ⟨0⟩ else .error .malformed
  | _ => .error .malformed

/-! ### Tables and lists -/

/-- A character of a key in lower case. Outside of the Latin letters only the Kelvin sign matters,
as it has one of them as its lower case. -/
def lowerChar (c : Char) : Char := if c = '\u212a' then 'k' else c.toLower

/-- A key in lower case. -/
def lower (key : String) : String := key.map lowerChar

/-- The entry of a table with a given key. -/
def lookup? (key : String) : List (String × Setting) → Option Setting := List.lookup key

/-- The table with an entry set to a value. -/
def put (key : String) (value : Setting) : List (String × Setting) → List (String × Setting)
  | [] => [(key, value)]
  | (k, v) :: rest => if k = key then (k, value) :: rest else (k, v) :: put key value rest

/-- The entries of a table; another setting counts as a table without entries. -/
def entries : Setting → List (String × Setting)
  | .table entries => entries
  | _ => []

/-- The elements of a list; another setting counts as a list without elements. -/
def elements : Setting → List Setting
  | .list items => items
  | _ => []

mutual

/-- The setting with an entry set to a value. Keys are taken in lower case. A table is merged into
what is there, entry by entry; any other value replaces it. -/
def set (root : Setting) (key : String) : Setting → Setting
  | .table incoming =>
    let key := lower key
    let target := (lookup? key root.entries).getD (.table [])
    .table (put key (merge target incoming) root.entries)
  | value => .table (put (lower key) value root.entries)

/-- The setting with all entries of a table set. -/
def merge (root : Setting) : List (String × Setting) → Setting
  | [] => root
  | (key, value) :: rest => merge (set root key value) rest

end

/-! ### Paths -/

/-- A part of a path: to an entry of a table, or to an element of a list. A negative number counts
from the end of the list. -/
inductive PathPart
  | entry (key : String)
  | element (index : Int)

/-- Whether a character may stand in a key that is part of a path. -/
def isKeyChar (c : Char) : Bool := c.isAlphanum || c = '_' || c = '-' || c = ' '

/-- A key, and the text behind it. -/
def pathKey? (text : List Char) : Option (PathPart × List Char) :=
  match text.takeWhile isKeyChar with
  | [] => none
  | key => some (.entry (String.ofList key), text.drop key.length)

/-- The number of an element behind its opening bracket, and the text behind the closing one. -/
def pathIndex? (text : List Char) : Option (PathPart × List Char) := do
  let isBlank (c : Char) : Bool := c = ' ' || c = '\t'
  let text := text.dropWhile isBlank
  let number := text.takeWhile fun c => c = '-' || c.isDigit
  let index ← signed? (String.ofList number)
  match (text.drop number.length).dropWhile isBlank with
  | ']' :: rest => return (.element index, rest)
  | _ => none

/-- The parts of a path behind its first one, at most `limit` of them. -/
def pathParts? : Nat → List Char → Option (List PathPart)
  | 0, _ => none
  | _, [] => some []
  | limit + 1, '.' :: rest => do
    let (part, rest) ← pathKey? rest
    return part :: (← pathParts? limit rest)
  | limit + 1, '[' :: rest => do
    let (part, rest) ← pathIndex? rest
    return part :: (← pathParts? limit rest)
  | _, _ => none

/-- The parts of a path, which begins with a key. -/
def path? (key : String) : Option (List PathPart) := do
  let (part, rest) ← pathKey? key.toList
  return part :: (← pathParts? (rest.length + 1) rest)

/-- The size of a setting in memory, in bytes. -/
def entryBytes : Nat := 96

/-- The position of an element in a list. It may be behind the end, but not before the beginning. -/
def position (index : Int) (length : Nat) : Except Fault Nat :=
  if 0 ≤ index then do
    let i := index.toNat
    if length ≤ i then room? (i + 1) entryBytes
    return i
  else if index.natAbs ≤ length then .ok (length - index.natAbs)
  else .error .subtractionOverflow

/-- The list with an element set to a value. Elements up to it that are not there are missing. -/
def setElement (items : List Setting) (i : Nat) (value : Setting) : List Setting :=
  (items ++ List.replicate (i + 1 - items.length) Setting.missing).set i value

/-- The setting with what is at the end of a path set to a value. -/
def setPath (root : Setting) : List PathPart → Setting → Except Fault Setting
  | [], _ => .ok root
  | [.entry key], value => .ok (set root key value)
  | .entry key :: rest, value => do
    let child := (lookup? key root.entries).getD .missing
    return .table (put key (← setPath child rest value) root.entries)
  | .element index :: rest, value => do
    let i ← position index root.elements.length
    let child := root.elements.getD i .missing
    let child ← if rest.isEmpty then pure value else setPath child rest value
    return .list (setElement root.elements i child)

/-- The setting with an entry set to a value, where the key may be a path. -/
def assign (root : Setting) (key : String) (value : Setting) : Except Fault Setting :=
  match path? (lower key) with
  | some path => setPath root path value
  | none => .ok (set root key value)

end Setting
end Conclave
