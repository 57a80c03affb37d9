import Octasm.Program
import Octasm.Symbols.Scalar
import Octasm.Text.Lines
import Octasm.Text.Numeral

/-!
# Symbol files

What a debugger needs of a program, as a YAML document of two maps: from labels to addresses, in
the order of declaration, and from instruction addresses to line indices, ascending.

```
labels:
  start: 0
mapping:
  0: 0
  2: 1
```

A map without entries is written `{}` on its own row. A name of more than 128 characters is too
long to stand in front of its colon and is written as an explicit key.
-/

namespace Octasm

namespace Symbols

/-- The rows of one label. -/
def labelRows (name : Text) (address : Nat) : List Text :=
  if name.length ≤ 128 then
    [' ' :: ' ' :: Scalar.render name ++ ':' :: ' ' :: Text.decimal address]
  else
    [' ' :: ' ' :: '?' :: ' ' :: Scalar.render name,
      ' ' :: ' ' :: ':' :: ' ' :: Text.decimal address]

/-- The row of one instruction. -/
def lineRow (address line : Nat) : Text :=
  ' ' :: ' ' :: Text.decimal address ++ ':' :: ' ' :: Text.decimal line

/-- A map with its name. -/
def mapRows (name : Text) : List Text → List Text
  | [] => [name ++ [':', ' ', '\x7b', '\x7d']]
  | rows => (name ++ [':']) :: rows

/-- The rows of a symbol file. -/
def rows (p : Program) : List Text :=
  mapRows "labels".toList (p.labels.flatMap fun entry => labelRows entry.1 entry.2)
    ++ mapRows "mapping".toList (p.sourceMap.entries.map fun entry => lineRow entry.1 entry.2)

/-- The text of a symbol file. -/
def render (p : Program) : Text := Text.unlines (rows p)

end Symbols

end Octasm
