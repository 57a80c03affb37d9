import Octasm.Machine.Opcode
import Octasm.Program
import Octasm.Statement
import Octasm.Terminal
import Octasm.Text.Lines
import Octasm.Text.Numeral
import Octasm.Text.Utf8

/-!
# Listings

A listing shows a program beside its source: a header with the path, a row for each line, and a
rule below.

```
--------------+------[path]---------------------------------------------------
00: 1A 05         |    1: start: MOV A, 5 ; MOV_NUMBER_TO_REG_A
02: 48 65 6C 6C.. |    2: msg: DB "Hello"
```

A row has the address and the first bytes of what the line added, its number, and the line itself
without blanks at its end. Labels are marked where they are declared, and instructions are followed
by the name of their opcode, if it has one.

## Main definitions

* `Listing.row`: the row of one line
* `Listing.rows`: the whole listing
-/

namespace Octasm

namespace Listing

open Terminal

/-! ### Frame -/

/-- Dashes over the columns left of the source. -/
def margin : Text := List.replicate 14 '-'

/-- The first row. The path is followed by dashes to the width of the listing, measured in bytes. -/
def header (path : Text) : Text :=
  margin ++ "+------[".toList ++ path ++ [']'] ++ List.replicate (51 - path.utf8Length) '-'

/-- The last row. -/
def rule : Text := margin ++ '+' :: List.replicate 58 '-'

/-! ### Columns -/

/-- The address where the bytes of a line start, or blanks if it added none. -/
def addressColumn (s : Span) : Text :=
  if s.isEmpty then List.replicate 4 ' '
  else paint green ((Text.hex s.start).leftpad 2 '0') ++ [':', ' ']

/-- Up to four bytes, with two dots if there are more. -/
def byteColumn (bytes : List UInt8) : Text :=
  [' '].intercalate ((bytes.take 4).map Text.hexByte)
    ++ if bytes.length ≤ 4 then [] else ['.', '.']

/-- Put a text in place of the first occurrence of another. -/
def replaceFirst (needle replacement : Text) : Text → Text
  | [] => []
  | c :: t =>
    if needle.isPrefixOf (c :: t) then replacement ++ (c :: t).drop needle.length
    else c :: replaceFirst needle replacement t

/-- A line with its label marked. -/
def sourceColumn (t : Text) : Text :=
  match Statement.ofText t with
  | .ok ⟨some label, _, _, _⟩ => replaceFirst label (paint green label) t
  | _ => t

/-- The name of the opcode, if the bytes start with one. Data has no entry in the source map. -/
def nameColumn (m : SourceMap) (s : Span) (bytes : List UInt8) : Text :=
  match m.line? s.start, s.isEmpty, bytes with
  | some _, false, opcode :: _ =>
    match Opcode.name? opcode with
    | some name => ' ' :: paint red (';' :: ' ' :: name.toList)
    | none => []
  | _, _, _ => []

/-! ### Rows -/

/-- The row of a line. -/
def row (p : Program) (index : Nat) (line : Text) : Text :=
  let t := line.trimEnd
  let s := p.spans[index]?.getD ⟨0, 0⟩
  let bytes := s.bytes p.code
  addressColumn s ++ Text.alignLeft 14 (byteColumn bytes) ++ ['|', ' ']
    ++ Text.alignRight 4 (Text.decimal (index + 1)) ++ [':', ' ']
    ++ sourceColumn t ++ nameColumn p.sourceMap s bytes

/-- The listing of a program beside a source text. -/
def rows (path source : Text) (p : Program) : List Text :=
  header path :: source.lines.mapIdx (row p) ++ [rule]

end Listing

end Octasm
