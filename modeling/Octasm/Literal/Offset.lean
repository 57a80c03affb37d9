import Octasm.Literal.Number
import Octasm.Machine.Indirect

/-!
# Offset addressing

`A+3` or `sp-12`: a register, a sign, and decimal digits to the end. A register and a sign settle
that the text is meant as an offset, so everything after them is held to the rule; any other text
is simply not an offset and may still be a number.
-/

namespace Octasm

namespace Offset

/-- The register at the front of a text, in either case, and the text after it. -/
def base? : Text → Option (Register × Text)
  | [] => none
  | c :: t =>
    match c.toUpper, t with
    | 'A', t => some (.a, t)
    | 'B', t => some (.b, t)
    | 'C', t => some (.c, t)
    | 'D', t => some (.d, t)
    | 'S', p :: t => if p.toUpper = 'P' then some (.sp, t) else none
    | _, _ => none

/-- The magnitude of an offset: decimal digits and nothing else. -/
def magnitude? (t : Text) : Option Nat :=
  if !t.isEmpty && t.all Char.isDigit then
    some (Number.bounded 10 (Number.leadingDigits 10 t))
  else none

/-- The operand byte for a base and a signed offset. -/
def packed (base : Register) (offset : Int) : Except Fault (Option UInt8) :=
  match Indirect.pack base offset with
  | some b => .ok (some b)
  | none => .error (.offsetOutOfRange offset)

/-- The operand byte of an offset, or nothing if the text is not meant as one. -/
def ofText (t : Text) : Except Fault (Option UInt8) :=
  match base? t with
  | some (base, '+' :: digits) =>
    match magnitude? digits with
    | some m => packed base m
    | none => .error (.malformedNumber t)
  | some (base, '-' :: digits) =>
    match magnitude? digits with
    | some m => packed base (-m)
    | none => .error (.malformedNumber t)
  | _ => .ok none

end Offset

end Octasm
