import Octasm.Operand
import Octasm.Symbols

/-!
# Reading symbol files back

A debugger reads a symbol file row by row. A map starts at the margin with its name, its entries are
the indented rows below, and the next row at the margin starts the next map. An entry is a key and a
number with a colon between them, in one row, or in two if the key is explicit.

Keys of labels are strings. A scalar in quotes always is one; a plain scalar is none if it is a word
with a meaning of its own.

## Main definitions

* `Scalar.read?`: the string of a scalar
* `Symbols.readEntries?`, `Symbols.readMap?`: the entries in some rows, and the map at their front
* `Symbols.read?`: the labels and the source map of a symbol file
-/

namespace Octasm

/-- The string that a scalar stands for. -/
def Scalar.read? (t : Text) : Option Text :=
  match Operand.between? '\'' '\'' t with
  | some name => some name
  | none => if needsQuotes t then none else some t

namespace Symbols

variable {κ : Type}

/-! ### Entries -/

/-- The number of a decimal numeral. -/
def readNumber? (t : Text) : Option Nat :=
  if !t.isEmpty && t.all Char.isDigit then some (Nat.ofDigitChars 10 t 0) else none

/-- The entries of a map with keys of some kind. -/
def readEntries? (readKey? : Text → Option κ) : List Text → Option (List (κ × Nat))
  | [] => some []
  | (' ' :: ' ' :: '?' :: ' ' :: key) :: (' ' :: ' ' :: ':' :: ' ' :: value) :: rows => do
    let k ← readKey? key
    let n ← readNumber? value
    let entries ← readEntries? readKey? rows
    some ((k, n) :: entries)
  | (' ' :: ' ' :: row) :: rows =>
    match row.dropWhile (· != ':') with
    | ':' :: ' ' :: value => do
      let k ← readKey? (row.takeWhile (· != ':'))
      let n ← readNumber? value
      let entries ← readEntries? readKey? rows
      some ((k, n) :: entries)
    | _ => none
  | _ => none

/-! ### Maps -/

/-- Does the row start with a space? -/
def isIndented (row : Text) : Bool := row.head? == some ' '

/-- The entries of the map with this name, and the rows behind it. -/
def readMap? (name : Text) (readKey? : Text → Option κ) :
    List Text → Option (List (κ × Nat) × List Text)
  | [] => none
  | head :: rows =>
    if head = name ++ [':', ' ', '\x7b', '\x7d'] then some ([], rows)
    else if head = name ++ [':'] then do
      let entries ← readEntries? readKey? (rows.takeWhile isIndented)
      some (entries, rows.dropWhile isIndented)
    else none

/-- The labels and the source map of a symbol file. Behind them it ends. -/
def read? (t : Text) : Option (List (Text × Nat) × List (Nat × Nat)) := do
  let (labels, rows) ← readMap? "labels".toList Scalar.read? t.lines
  let (entries, rows) ← readMap? "mapping".toList readNumber? rows
  if rows = [[]] then some (labels, entries) else none

example :
    read? "labels:\n  'null': 0\n  ? x\n  : 12\nmapping: \x7b\x7d\n".toList
      = some ([("null".toList, 0), ("x".toList, 12)], []) := by
  decide +kernel

end Symbols

end Octasm
