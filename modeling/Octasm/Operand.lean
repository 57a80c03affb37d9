import Octasm.Literal.Offset

/-!
# Operands

An operand token is classified by its shape: brackets make an address, quotes make characters, and
what is left is a register, a label or a number, tried in that order. No token is both a label and
a number, so only the first of these tries decides between two readings.

A label stays unresolved in its `Slot` until every line has been read, because it may be declared
further down.

## Main definitions

* `Slot`: one byte of the image, known or still to be filled in
* `Operand`, `Operand.ofText`: the classified operand of a token
-/

namespace Octasm

/-- One byte of the image: its value, or the label whose address it will hold. -/
inductive Slot
  | byte (value : UInt8)
  | label (name : Text)
  deriving DecidableEq, Repr

/-- A classified operand. -/
inductive Operand
  /-- `A` -/
  | register (r : Register)
  /-- `[0x20]` or `[label]` -/
  | address (location : Slot)
  /-- `[B]` or `[SP-3]`, as its operand byte -/
  | indirect (packed : UInt8)
  /-- `42`, `'c'` or `label` -/
  | number (value : Slot)
  /-- `"text"` -/
  | string (bytes : List UInt8)
  deriving DecidableEq, Repr

namespace Operand

/-! ### Values that have to fit in a byte -/

/-- A value as a byte. -/
def byte (what : Quantity) (value : Int) : Except Fault UInt8 :=
  if 0 ≤ value ∧ value ≤ 255 then .ok (UInt8.ofNat value.toNat) else .error (.notAByte what)

/-- A character as its code point. -/
def character (c : Char) : Except Fault UInt8 := byte .character c.toNat

/-- The characters of a text as their code points. -/
def characters (t : Text) : Except Fault (List UInt8) := t.mapM character

/-- A number literal as a byte. -/
def numberByte (what : Quantity) (t : Text) : Except Fault UInt8 := do
  let value ← Number.ofText t
  byte what value

/-! ### Classification -/

/-- The text between two delimiters. Both have to be there, and they do not overlap. -/
def between? (opening closing : Char) : Text → Option Text
  | [] => none
  | c :: t => if c = opening ∧ t.getLast? = some closing then some t.dropLast else none

/-- The operand between brackets. -/
def inBrackets (t : Text) : Except Fault Operand :=
  match Register.ofText? t with
  | some r => .ok (.indirect r.index)
  | none =>
    if t.isName then .ok (.address (.label t))
    else do
      match ← Offset.ofText t with
      | some packed => .ok (.indirect packed)
      | none =>
        let b ← numberByte .address t
        .ok (.address (.byte b))

/-- The operand between single quotes; `token` includes the quotes. -/
def inQuotes (token : Text) : Text → Except Fault Operand
  | [] => .error (.malformedNumber token)
  | [c] => do
    let b ← character c
    .ok (.number (.byte b))
  | _ :: _ :: _ => .error .severalCharacters

/-- The operand without delimiters. -/
def plain (t : Text) : Except Fault Operand :=
  match Register.ofText? t with
  | some r => .ok (.register r)
  | none =>
    if t.isName then .ok (.number (.label t))
    else do
      let b ← numberByte .number t
      .ok (.number (.byte b))

/-- The operand of a token. -/
def ofText (token : Text) : Except Fault Operand :=
  match between? '[' ']' token with
  | some t => inBrackets t
  | none =>
    match between? '"' '"' token with
    | some t => do
      let bytes ← characters t
      .ok (.string bytes)
    | none =>
      match between? '\'' '\'' token with
      | some t => inQuotes token t
      | none => plain token

end Operand

end Octasm
