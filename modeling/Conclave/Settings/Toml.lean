import Conclave.Settings.Setting

/-!
# TOML documents

`Toml.parse?` reads a document of TOML 1.0 as the entries of its root table, in the order in which
they first appear; it yields nothing if the text is not a document. Dates and times are kept as
texts.

The reader works on a list of characters. `Item` is a document under construction: beside its
entries a table records how it came about, since that decides what may be added to it later. A
table opened by a header may not be opened again; one that arose from a dotted key may only grow by
dotted keys and by tables with headers below it; an inline table is complete.

Values may not be nested too deeply, and keys may not have too many parts. A table whose first key is
`$__toml_private_datetime` is the inner form of a date or time; `dated?` turns it into one.
-/

namespace Conclave
namespace Toml

/-- A reader: what it read, and the text behind it. -/
abbrev Reader (α : Type) := List Char → Option (α × List Char)

/-! ### Characters -/

/-- Whether a character is a blank within a line. -/
def isBlank (c : Char) : Bool := c = ' ' || c = '\t'

/-- Whether a character may stand in a comment or in a string on one line. -/
def isPlain (c : Char) : Bool := c = '\t' || (0x20 ≤ c.toNat && c.toNat ≠ 0x7F)

/-- Whether a character may stand in a key without quotes. -/
def isBare (c : Char) : Bool := c.isAlphanum || c = '_' || c = '-'

/-- The value of a hexadecimal digit. -/
def hexDigit? (c : Char) : Option Nat :=
  if c.isDigit then some (c.toNat - 48)
  else if 'a' ≤ c ∧ c ≤ 'f' then some (c.toNat - 87)
  else if 'A' ≤ c ∧ c ≤ 'F' then some (c.toNat - 55)
  else none

/-- The text behind blanks. -/
def skipBlanks (text : List Char) : List Char := text.dropWhile isBlank

/-- The text behind the end of a line, if it begins with one. -/
def newline? : List Char → Option (List Char)
  | '\n' :: rest => some rest
  | '\r' :: '\n' :: rest => some rest
  | _ => none

/-- The text behind a comment, if it begins with one. -/
def skipComment : List Char → List Char
  | '#' :: rest => rest.dropWhile isPlain
  | text => text

/-- The text behind the rest of a line that holds nothing more. -/
def endLine? (text : List Char) : Option (List Char) :=
  match skipComment (skipBlanks text) with
  | [] => some []
  | rest => newline? rest

/-- The text behind blanks, comments and ends of lines; at most `limit` lines. -/
def skipLines : Nat → List Char → List Char
  | 0, text => text
  | limit + 1, text =>
    let rest := skipComment (skipBlanks text)
    match newline? rest with
    | some rest => skipLines limit rest
    | none => rest

/-! ### Strings -/

/-- The character with the number that `n` hexadecimal digits give. -/
def codePoint? (n : Nat) (text : List Char) : Option (Char × List Char) := do
  let digits := text.take n
  if digits.length < n then failure
  let code ← digits.foldlM (fun k c => (hexDigit? c).map (16 * k + ·)) 0
  if h : code.isValidChar then return (Char.ofNatAux code h, text.drop n) else failure

/-- The character that an escape sequence behind its backslash stands for. -/
def escape? : List Char → Option (Char × List Char)
  | 'b' :: rest => some ('\x08', rest)
  | 't' :: rest => some ('\t', rest)
  | 'n' :: rest => some ('\n', rest)
  | 'f' :: rest => some ('\x0c', rest)
  | 'r' :: rest => some ('\r', rest)
  | '"' :: rest => some ('"', rest)
  | '\\' :: rest => some ('\\', rest)
  | 'u' :: rest => codePoint? 4 rest
  | 'U' :: rest => codePoint? 8 rest
  | _ => none

/-- A string in quotation marks, behind the opening one. -/
def basicString : Nat → List Char → Reader String
  | 0, _, _ => none
  | limit + 1, acc, text =>
    match text with
    | '"' :: rest => some (String.ofList acc.reverse, rest)
    | '\\' :: rest => do
      let (c, rest) ← escape? rest
      basicString limit (c :: acc) rest
    | c :: rest => if isPlain c then basicString limit (c :: acc) rest else none
    | [] => none

/-- A string in apostrophes, behind the opening one. -/
def literalString (text : List Char) : Option (String × List Char) :=
  let body := text.takeWhile fun c => isPlain c && c ≠ '\''
  match text.drop body.length with
  | '\'' :: rest => some (String.ofList body, rest)
  | _ => none

/-- The quotes at the end of a string over several lines: three that close it, and up to two before
them that belong to it. -/
def closing? (quote : Char) (text : List Char) : Option (List Char × List Char) :=
  let run := (text.takeWhile (· = quote)).length
  if run < 3 then none
  else
    let extra := min (run - 3) 2
    some (List.replicate extra quote, text.drop (extra + 3))

/-- The text behind blanks and ends of lines; at most `limit` lines. -/
def skipEmptyLines : Nat → List Char → List Char
  | 0, text => text
  | limit + 1, text =>
    let rest := skipBlanks text
    match newline? rest with
    | some rest => skipEmptyLines limit rest
    | none => rest

/-- The text behind a backslash at the end of a line: what follows blanks and empty lines. -/
def continuation? (text : List Char) : Option (List Char) :=
  (newline? (skipBlanks text)).map fun rest => skipEmptyLines (rest.length + 1) rest

/-- A string over several lines, behind the opening quotes; with apostrophes it has no escapes. -/
def longString (quote : Char) : Nat → List Char → Reader String
  | 0, _, _ => none
  | limit + 1, acc, text =>
    match closing? quote text with
    | some (extra, rest) => some (String.ofList (acc.reverse ++ extra), rest)
    | none =>
      match newline? text, text with
      | some rest, _ => longString quote limit ('\n' :: acc) rest
      | none, [] => none
      | none, c :: rest =>
        if c = '\\' ∧ quote = '"' then
          match continuation? rest with
          | some rest => longString quote limit acc rest
          | none =>
            match escape? rest with
            | some (c, rest) => longString quote limit (c :: acc) rest
            | none => none
        else if isPlain c then longString quote limit (c :: acc) rest
        else none

/-- A string on one line, which may be a key. -/
def shortString? (text : List Char) : Option (String × List Char) :=
  match text with
  | '"' :: rest => basicString (rest.length + 1) [] rest
  | '\'' :: rest => literalString rest
  | _ => none

/-- Any string. The end of the line behind opening quotes does not count. -/
def string? (text : List Char) : Option (String × List Char) :=
  let long (quote : Char) (rest : List Char) : Option (String × List Char) :=
    let rest := (newline? rest).getD rest
    longString quote (rest.length + 1) [] rest
  match text with
  | '"' :: '"' :: '"' :: rest => long '"' rest
  | '\'' :: '\'' :: '\'' :: rest => long '\'' rest
  | _ => shortString? text

/-! ### Numbers, dates and times -/

/-- Digits with single underscores between them; `isDigit` tells which are digits. -/
def digitRun (isDigit : Char → Bool) : List Char → List Char × List Char
  | c :: '_' :: d :: rest =>
    if isDigit c ∧ isDigit d then
      let (digits, rest) := digitRun isDigit (d :: rest)
      (c :: digits, rest)
    else if isDigit c then ([c], '_' :: d :: rest)
    else ([], c :: '_' :: d :: rest)
  | c :: rest =>
    if isDigit c then
      let (digits, rest) := digitRun isDigit rest
      (c :: digits, rest)
    else ([], c :: rest)
  | [] => ([], [])

/-- An integer with a base of two, eight or sixteen, behind what tells the base. -/
def based? (base : Nat) (text : List Char) : Option (Setting × List Char) := do
  let isDigit (c : Char) : Bool := (hexDigit? c).any (· < base)
  let (digits, rest) := digitRun isDigit text
  if digits = [] then failure
  let n := digits.foldl (fun n c => base * n + (hexDigit? c).getD 0) 0
  if n ≤ Int64.maxValue.toInt then return (.integer n, rest) else failure

/-- The digits of a whole number: no zero stands before other digits. -/
def wholeDigits (text : List Char) : List Char × List Char :=
  match text with
  | '0' :: rest => (['0'], rest)
  | _ => digitRun Char.isDigit text

/-- The number that digits stand for. -/
def number (digits : List Char) : Nat := digits.foldl (fun n c => 10 * n + (c.toNat - 48)) 0

/-- The digits behind the point of a number, if there is one. A point without digits is refused. -/
def fractionDigits? : Reader (List Char)
  | '.' :: rest =>
    let (digits, rest) := digitRun Char.isDigit rest
    if digits = [] then none else some (digits, rest)
  | text => some ([], text)

/-- The exponent of a number, if there is one. -/
def exponent? : Reader (Option Int)
  | e :: rest =>
    if e = 'e' ∨ e = 'E' then
      let (negative, rest) :=
        match rest with
        | '+' :: rest => (false, rest)
        | '-' :: rest => (true, rest)
        | rest => (false, rest)
      let (digits, rest) := digitRun Char.isDigit rest
      if digits = [] then none
      else some (some (if negative then -Int.ofNat (number digits) else number digits), rest)
    else some (none, e :: rest)
  | [] => some (none, [])

/-- A number in decimal notation behind its sign. A floating-point number may not be too large for
its format unless it is negative. -/
def decimal? (negative : Bool) (text : List Char) : Option (Setting × List Char) := do
  let (whole, rest) := wholeDigits text
  if whole = [] then failure
  let (fraction, rest) ← fractionDigits? rest
  let (exponent, rest) ← exponent? rest
  if fraction = [] ∧ exponent = none then
    let n : Int := number whole
    let n := if negative then -n else n
    if Int64.minValue.toInt ≤ n ∧ n ≤ Int64.maxValue.toInt then return (.integer n, rest)
    else failure
  else
    let x := Setting.decimal negative (number (whole ++ fraction))
      (exponent.getD 0 - fraction.length)
    -- a negative number below the range of the format stands for minus infinity
    if x == 1.0 / 0.0 then failure
    return (.float x, rest)

/-- A number behind its sign. -/
def signedNumber? (negative : Bool) (text : List Char) : Option (Setting × List Char) :=
  match text with
  | 'i' :: 'n' :: 'f' :: rest =>
    some (.float (if negative then -1.0 / 0.0 else 1.0 / 0.0), rest)
  | 'n' :: 'a' :: 'n' :: rest => some (.float (0.0 / 0.0), rest)
  | _ => decimal? negative text

/-- A number. -/
def number? (text : List Char) : Option (Setting × List Char) :=
  match text with
  | '+' :: rest => signedNumber? false rest
  | '-' :: rest => signedNumber? true rest
  | '0' :: 'x' :: rest => based? 16 rest
  | '0' :: 'o' :: rest => based? 8 rest
  | '0' :: 'b' :: rest => based? 2 rest
  | _ => signedNumber? false text

/-- A number of exactly `n` digits between two bounds. -/
def field? (n least most : Nat) (text : List Char) : Option (Nat × List Char) := do
  let digits := text.take n
  if digits.length < n ∨ ¬ digits.all Char.isDigit then failure
  let k := number digits
  if least ≤ k ∧ k ≤ most then return (k, text.drop n) else failure

/-- The text behind a character, if it begins with it. -/
def expect? (c : Char) : List Char → Option (List Char)
  | d :: rest => if c = d then some rest else none
  | [] => none

/-- The number of days of a month. -/
def daysOf (year month : Nat) : Nat :=
  if month = 2 then
    if year % 4 = 0 ∧ (year % 100 ≠ 0 ∨ year % 400 = 0) then 29 else 28
  else if month ∈ [4, 6, 9, 11] then 30
  else 31

/-- The text behind a date. -/
def date? (text : List Char) : Option (List Char) := do
  let (year, rest) ← field? 4 0 9999 text
  let (month, rest) ← field? 2 1 12 (← expect? '-' rest)
  let (_, rest) ← field? 2 1 (daysOf year month) (← expect? '-' rest)
  return rest

/-- The text behind a time of day. -/
def time? (text : List Char) : Option (List Char) := do
  let (_, rest) ← field? 2 0 23 text
  let (_, rest) ← field? 2 0 59 (← expect? ':' rest)
  let (_, rest) ← field? 2 0 60 (← expect? ':' rest)
  match rest with
  | '.' :: rest =>
    match rest.takeWhile Char.isDigit with
    | [] => failure
    | digits => return rest.drop digits.length
  | _ => return rest

/-- The text behind the offset of a time zone, if there is one. -/
def zone? (text : List Char) : Option (List Char) :=
  let offset (rest : List Char) : Option (List Char) := do
    let (_, rest) ← field? 2 0 23 rest
    let (_, rest) ← field? 2 0 59 (← expect? ':' rest)
    return rest
  match text with
  | 'Z' :: rest => some rest
  | 'z' :: rest => some rest
  | '+' :: rest => offset rest
  | '-' :: rest => offset rest
  | _ => some text

/-- Whether a text begins as a time of day does. -/
def startsTime (text : List Char) : Bool :=
  match text with
  | a :: b :: ':' :: _ => a.isDigit && b.isDigit
  | _ => false

/-- Whether a text begins as a date does. -/
def startsDate (text : List Char) : Bool :=
  match text with
  | a :: b :: c :: d :: '-' :: _ => [a, b, c, d].all Char.isDigit
  | _ => false

/-- The text behind a date with an optional time of day, or behind a time of day. -/
def moment? (text : List Char) : Option (List Char) :=
  if startsTime text then time? text
  else do
    let rest ← date? text
    match rest with
    | c :: more =>
      if (c = 'T' ∨ c = 't' ∨ c = ' ') ∧ startsTime more then zone? (← time? more) else return rest
    | [] => return rest

/-! ### Documents under construction -/

/-- How a table came about. -/
inductive Origin
  /-- It lies on the way to a table with a header. -/
  | implied
  /-- It lies on the way of a dotted key. -/
  | dotted
  /-- It has a header. -/
  | header
  deriving DecidableEq

/-- A part of a document. -/
inductive Item
  | value (v : Setting)
  | table (origin : Origin) (entries : List (String × Item))
  /-- An array of tables, the last one first. -/
  | tables (elements : List (List (String × Item)))

/-- The entries of a table. -/
abbrev Entries := List (String × Item)

/-- The entries with an entry set to an item. -/
def Entries.put (key : String) (item : Item) : Entries → Entries
  | [] => [(key, item)]
  | (k, i) :: rest => if k = key then (k, item) :: rest else (k, i) :: Entries.put key item rest

/-- Sets a dotted key of a table to a value; whether `settable`, the table itself may get an entry.
On the way lie tables without a header, the new ones arising from the dotted key, and arrays of
tables, of which the last element counts. Only in a table that arose from a dotted key may the way
end. -/
def assign? (value : Setting) (settable : Bool) : List String → Entries → Option Entries
  | [], _ => none
  | [key], entries =>
    match settable, entries.lookup key with
    | true, none => some (Entries.put key (.value value) entries)
    | _, _ => none
  | key :: rest, entries =>
    match entries.lookup key with
    | none => (assign? value true rest []).map fun inner =>
        Entries.put key (.table .dotted inner) entries
    | some (.table .header _) => none
    | some (.table origin inner) => (assign? value (origin = .dotted) rest inner).map fun inner =>
        Entries.put key (.table origin inner) entries
    | some (.tables (last :: before)) => (assign? value false rest last).map fun last =>
        Entries.put key (.tables (last :: before)) entries
    | some _ => none

/-- Changes the table that a path leads to, the last element of an array of tables counting as its
table. Tables that are missing on the way are implied. -/
def descend? (f : Entries → Option Entries) : List String → Entries → Option Entries
  | [], entries => f entries
  | key :: rest, entries =>
    match entries.lookup key with
    | none => (descend? f rest []).map fun inner =>
        Entries.put key (.table .implied inner) entries
    | some (.table origin inner) => (descend? f rest inner).map fun inner =>
        Entries.put key (.table origin inner) entries
    | some (.tables (last :: before)) => (descend? f rest last).map fun last =>
        Entries.put key (.tables (last :: before)) entries
    | some _ => none

/-- Opens a table by its header. A table that was implied before is moved to the end. -/
def openTable? (key : String) (entries : Entries) : Option Entries :=
  match entries.lookup key with
  | none => some (Entries.put key (.table .header []) entries)
  | some (.table .implied inner) =>
    some (entries.filter (fun (k, _) => k ≠ key) ++ [(key, .table .header inner)])
  | some _ => none

/-- Begins the next element of an array of tables. -/
def openElement? (key : String) (entries : Entries) : Option Entries :=
  match entries.lookup key with
  | none => some (Entries.put key (.tables [[]]) entries)
  | some (.tables elements) => some (Entries.put key (.tables ([] :: elements)) entries)
  | some _ => none

mutual

/-- The setting that an item stands for. -/
def Item.setting : Item → Setting
  | .value v => v
  | .table _ entries => .table (settings entries)
  | .tables elements => .list (elementSettings elements).reverse

/-- The settings that entries stand for. -/
def settings : List (String × Item) → List (String × Setting)
  | [] => []
  | (key, item) :: rest => (key, item.setting) :: settings rest

/-- The settings that the elements of an array stand for. -/
def elementSettings : List (List (String × Item)) → List Setting
  | [] => []
  | entries :: rest => .table (settings entries) :: elementSettings rest

end

/-! ### Keys and values -/

/-- A key without points. -/
def simpleKey? (text : List Char) : Option (String × List Char) :=
  match text.takeWhile isBare with
  | [] => shortString? text
  | bare => some (String.ofList bare, text.drop bare.length)

/-- The greatest depth of nested values, and the greatest number of parts of a key. -/
def maxDepth : Nat := 79

/-- The parts of a key, at most `limit` of them, with the blanks around them. -/
def keyParts? : Nat → Reader (List String)
  | 0, _ => none
  | limit + 1, text => do
    let (first, rest) ← simpleKey? (skipBlanks text)
    match skipBlanks rest with
    | '.' :: rest =>
      let (more, rest) ← keyParts? limit rest
      return (first :: more, rest)
    | rest => return ([first], rest)

/-- A key, with the blanks around it and around its points. -/
def key? : Reader (List String) := keyParts? maxDepth

/-- The key that marks the inner form of a date or time. -/
def momentKey : String := "$__toml_private_datetime"

/-- A date, a time or a number. Dates and times are read into their inner form. -/
def scalar? (text : List Char) : Option (Setting × List Char) :=
  if startsDate text ∨ startsTime text then
    (moment? text).map fun rest =>
      let moment := String.ofList (text.take (text.length - rest.length))
      (.table [(momentKey, .text moment)], rest)
  else number? text

mutual

/-- A value; at most `limit` values and keys are read on the way, and values are nested to at most
the given depth. -/
def value? : Nat → Nat → Reader Setting
  | 0, _, _ => none
  | limit + 1, depth, text =>
    match text with
    | '[' :: rest => if depth = 0 then none else elements? limit (depth - 1) [] rest
    | '\x7b' :: rest =>
      if depth = 0 then none
      else
        match skipBlanks rest with
        | '\x7d' :: rest => some (.table [], rest)
        | rest => inline? limit (depth - 1) [] rest
    | 't' :: 'r' :: 'u' :: 'e' :: rest => some (.boolean true, rest)
    | 'f' :: 'a' :: 'l' :: 's' :: 'e' :: rest => some (.boolean false, rest)
    | '"' :: _ => (string? text).map fun (s, rest) => (.text s, rest)
    | '\'' :: _ => (string? text).map fun (s, rest) => (.text s, rest)
    | _ => scalar? text

/-- The rest of an array, of which the last elements are given. -/
def elements? : Nat → Nat → List Setting → Reader Setting
  | 0, _, _, _ => none
  | limit + 1, depth, acc, text =>
    match skipLines (text.length + 1) text with
    | ']' :: rest => some (.list acc.reverse, rest)
    | text =>
      match value? limit depth text with
      | none => none
      | some (v, rest) =>
        match skipLines (rest.length + 1) rest with
        | ']' :: rest => some (.list (v :: acc).reverse, rest)
        | ',' :: rest => elements? limit depth (v :: acc) rest
        | _ => none

/-- The rest of an inline table, of which some entries are given. -/
def inline? : Nat → Nat → Entries → Reader Setting
  | 0, _, _, _ => none
  | limit + 1, depth, acc, text =>
    match key? text with
    | some (path, '=' :: rest) =>
      match value? limit depth (skipBlanks rest) with
      | none => none
      | some (v, rest) =>
        match assign? v true path acc with
        | none => none
        | some acc =>
          match skipBlanks rest with
          | '\x7d' :: rest => some (.table (settings acc), rest)
          | ',' :: rest => inline? limit depth acc rest
          | _ => none
    | _ => none

end

/-! ### Documents -/

/-- A document read so far: its root table, and the path to the table that key lines belong to. -/
structure Document where
  root : Entries
  path : List String

/-- A header of a table or of an element of an array of tables. -/
def header? (d : Document) (text : List Char) : Option (Document × List Char) := do
  let finish (opened : String → Entries → Option Entries) (path : List String) :
      Option Document := do
    let key ← path.getLast?
    let root ← descend? (opened key) path.dropLast d.root
    return ⟨root, path⟩
  match text with
  | '[' :: rest =>
    let (path, rest) ← key? rest
    match rest with
    | ']' :: ']' :: rest => return (← finish openElement? path, rest)
    | _ => failure
  | _ =>
    let (path, rest) ← key? text
    match rest with
    | ']' :: rest => return (← finish openTable? path, rest)
    | _ => failure

/-- A line with a key and a value. -/
def keyLine? (d : Document) (text : List Char) : Option (Document × List Char) := do
  let (path, rest) ← key? text
  let (v, rest) ← value? (text.length + 1) maxDepth (skipBlanks (← expect? '=' rest))
  let root ← descend? (assign? v true path) d.path d.root
  return (⟨root, d.path⟩, rest)

/-- The lines of a document, at most `limit` of them. -/
def lines? : Nat → Document → List Char → Option Document
  | 0, _, _ => none
  | limit + 1, d, text => do
    let text := skipBlanks text
    let (d, rest) ←
      match text with
      | [] => some (d, [])
      | '[' :: rest => header? d rest
      | c :: _ => if c = '#' ∨ (newline? text).isSome then some (d, text) else keyLine? d text
    match ← endLine? rest with
    | [] => return d
    | rest => lines? limit d rest

mutual

/-- The setting in which tables that are dates or times are replaced by their texts. It fails if a
table bears their mark in vain. -/
def dated? : Setting → Option Setting
  | .table ((key, value) :: rest) =>
    if key = momentKey then
      match value with
      | .text s => if moment? s.toList = some [] then some (.text s) else none
      | _ => none
    else
      match dated? value, datedEntries? rest with
      | some value, some rest => some (.table ((key, value) :: rest))
      | _, _ => none
  | .list items => (datedItems? items).map .list
  | setting => some setting

/-- The entries in which tables that are dates or times are replaced. -/
def datedEntries? : List (String × Setting) → Option (List (String × Setting))
  | [] => some []
  | (key, value) :: rest =>
    match dated? value, datedEntries? rest with
    | some value, some rest => some ((key, value) :: rest)
    | _, _ => none

/-- The elements in which tables that are dates or times are replaced. -/
def datedItems? : List Setting → Option (List Setting)
  | [] => some []
  | value :: rest =>
    match dated? value, datedItems? rest with
    | some value, some rest => some (value :: rest)
    | _, _ => none

end

/-- The entries of the root table of a document. A byte order mark before it does not count. -/
def parse? (text : String) : Option (List (String × Setting)) := do
  let chars :=
    match text.toList with
    | c :: rest => if c.toNat = 0xFEFF then rest else c :: rest
    | [] => []
  let d ← lines? (chars.length + 1) ⟨[], []⟩ chars
  match ← dated? (.table (settings d.root)) with
  | .table entries => return entries
  | _ => none

end Toml
end Conclave
