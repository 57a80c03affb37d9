import Octasm.Assembly
import Octasm.Terminal

/-!
# Diagnostics

An assembly that fails is reported with its cause and its place. A fault of a line shows the line
with its number, counted from one; a fault of linking has no line, because the reference may stand
anywhere.

```
error: Invalid number format: `12x`
     --> main.asm:3
      |
    3 | MOV A, 12x
      |
```
-/

namespace Octasm

namespace Diagnostic

open Terminal

/-- The row that says what is wrong. -/
def errorRow (message : String) : Text :=
  paint boldRed "error".toList ++ ':' :: ' ' :: message.toList

/-- The row that says where. -/
def placeRow (place : Text) : Text :=
  "     ".toList ++ paint blue "-->".toList ++ ' ' :: paint underline place

/-- A row of the frame around a line. -/
def barRow : Text := "      ".toList ++ paint blue ['|']

/-- The line with its number. -/
def lineRow (number : Nat) (line : Text) : Text :=
  ' ' :: paint blue (Text.alignRight 4 (Text.decimal number) ++ [' ', '|']) ++ ' ' :: line.trimEnd

/-- The report of a failed assembly. -/
def rows (path source : Text) (f : AssemblyFault) : List Text :=
  match f with
  | .link fault => [errorRow fault.message, placeRow path]
  | .line index fault =>
    [errorRow fault.message, placeRow (path ++ ':' :: Text.decimal (index + 1)), barRow,
      lineRow (index + 1) (source.lines[index]?.getD []), barRow]

end Diagnostic

end Octasm
