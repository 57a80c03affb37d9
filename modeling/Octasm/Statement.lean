import Octasm.Fault
import Octasm.Statement.Token

/-!
# Statements

A line holds an optional label with its colon, an optional mnemonic, and up to two operands
separated by a comma:

```
label: MNEMONIC operand, operand   ; comment
```

Only the front of a line has to be a statement. Reading stops where no further part fits, and what
is left is ignored; comments are nothing more than that. A line without a label and without a
mnemonic is accepted only if it is blank or starts with a semicolon.

A mnemonic is two to four letters. From a longer word the first four are taken, and no operand can
follow, because an operand needs a tab or a space in front of it.

## Main definitions

* `Statement`: the parts of a line
* `Statement.scan`: the parts that are there, in one pass from left to right
* `Statement.ofText`: the same, with lines refused that hold something else
-/

namespace Octasm

/-- The parts of a source line, each as it is written. -/
structure Statement where
  label : Option Text
  mnemonic : Option Text
  first : Option Text
  second : Option Text
  deriving DecidableEq, Repr

namespace Statement

/-- The statement of an empty line. -/
def empty : Statement := ⟨none, none, none, none⟩

/-- Is there neither a label nor a mnemonic? -/
def isEmpty (s : Statement) : Bool := s.label.isNone && s.mnemonic.isNone

/-! ### The parts of a line -/

/-- The label in front of a colon, if the longest name at the front is followed by one, and the
text that is left. -/
def scanLabel : Text → Option Text × Text
  | [] => (none, [])
  | c :: t =>
    if Text.isNameHead c then
      match t.dropWhile Text.isWord with
      | ':' :: rest => (some (c :: t.takeWhile Text.isWord), rest)
      | _ => (none, c :: t)
    else (none, c :: t)

/-- The mnemonic at the front: up to four letters of a run of at least two. -/
def scanMnemonic (t : Text) : Option (Text × Text) :=
  let letters := t.takeWhile Char.isAlpha
  if letters.length < 2 then none else some (letters.take 4, t.drop (letters.take 4).length)

/-- The first operand, which needs a tab or a space in front of it. -/
def scanFirst (t : Text) : Option (Text × Text) :=
  if t.head?.any Text.isSeparator then Token.ofText? t.skipSeparators else none

/-- The second operand, which needs a comma in front of it. -/
def scanSecond (t : Text) : Option (Text × Text) :=
  match t.skipSeparators with
  | ',' :: rest => Token.ofText? (Text.skipSeparators rest)
  | _ => none

/-- The operands behind a mnemonic. -/
def scanOperands (t : Text) : Option Text × Option Text :=
  match scanFirst t with
  | none => (none, none)
  | some (first, rest) => (some first, (scanSecond rest).map Prod.fst)

/-- The parts at the front of a line. -/
def scan (t : Text) : Statement :=
  let (label, rest) := scanLabel t.skipSeparators
  match scanMnemonic (Text.skipSeparators rest) with
  | none => { empty with label }
  | some (mnemonic, rest) =>
    let (first, second) := scanOperands rest
    { label, mnemonic := some mnemonic, first, second }

/-! ### Whole lines -/

/-- Is the line blank, or a comment after blanks? -/
def isIgnorable (t : Text) : Bool :=
  match t.trim with
  | [] => true
  | c :: _ => c == ';'

/-- The statement on a line. -/
def ofText (t : Text) : Except Fault Statement :=
  let s := scan t
  if s.isEmpty && !isIgnorable t then .error .malformedLine else .ok s

end Statement

end Octasm
