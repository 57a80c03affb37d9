import Octasm.Fault
import Octasm.Text.Blank

/-!
# Number literals

A number is written `200`, `200d`, `0xA4`, `0o17` or `101b`, with an optional sign. The mark of the
radix is looked for in that order, prefixes first, so `0x1b` is hexadecimal.

A marked number is read leniently: blanks may stand after the mark's prefix, and reading stops at
the first character that is no digit of the radix, so `0o48` is four. A plain number has to be
digits to its end.

Values are bounded by `Number.limit` while they are read, so a literal of any length has a value.
That is what a caller needs who only asks whether the value fits in a byte.

## Main definitions

* `Number.leadingDigits`: the values of the digits at the front of a text
* `Number.bounded`: the number they denote, up to the limit
* `Number.readSigned`: blanks, a sign and digits
* `Number.ofText`: the literal itself
-/

namespace Octasm

namespace Number

/-! ### Digits -/

/-- The value of a hexadecimal digit in either case. -/
def hexValue? (c : Char) : Option Nat :=
  if '0' ≤ c ∧ c ≤ '9' then some (c.toNat - '0'.toNat)
  else if 'a' ≤ c ∧ c ≤ 'f' then some (c.toNat - 'a'.toNat + 10)
  else if 'A' ≤ c ∧ c ≤ 'F' then some (c.toNat - 'A'.toNat + 10)
  else none

/-- The value of a digit in a radix up to sixteen. -/
def digit? (radix : Nat) (c : Char) : Option Nat := (hexValue? c).filter (· < radix)

/-- The values of the longest run of digits at the front of a text. -/
def leadingDigits (radix : Nat) : Text → List Nat
  | [] => []
  | c :: t =>
    match digit? radix c with
    | some d => d :: leadingDigits radix t
    | none => []

/-- The largest magnitude of a literal, one below `2 ^ 63`. -/
def limit : Nat := 0x7FFFFFFFFFFFFFFF

/-- The number that digits denote, bounded at every step. -/
def bounded (radix : Nat) (digits : List Nat) : Nat :=
  digits.foldl (fun value d => min (value * radix + d) limit) 0

theorem bounded_le_limit (radix : Nat) (digits : List Nat) : bounded radix digits ≤ limit := by
  have step : ∀ (ds : List Nat) (v : Nat), v ≤ limit →
      ds.foldl (fun value d => min (value * radix + d) limit) v ≤ limit := by
    intro ds
    induction ds with
    | nil => intro v h; exact h
    | cons d ds ih => intro v _; exact ih _ (Nat.min_le_right _ _)
  exact step digits 0 (Nat.zero_le _)

/-! ### Literals -/

/-- Blanks, an optional sign and at least one digit. What follows the digits is left unread. -/
def readSigned (radix : Nat) (t : Text) : Option Int :=
  let (negative, rest) := t.trimStart.takeSign
  match leadingDigits radix rest with
  | [] => none
  | digits => some (if negative then -(bounded radix digits : Int) else bounded radix digits)

/-- The radix of a marked number and the text without its mark. -/
def marked? : Text → Option (Nat × Text)
  | '0' :: 'x' :: body => some (16, body)
  | '0' :: 'o' :: body => some (8, body)
  | t =>
    match t.getLast? with
    | some 'b' => some (2, t.dropLast)
    | some 'd' => some (10, t.dropLast)
    | _ => none

/-- An optional sign and then one or more decimal digits to the end. -/
def isPlain (t : Text) : Bool :=
  let digits := t.takeSign.2
  !digits.isEmpty && digits.all Char.isDigit

/-- The value of a number literal. No range is asked for here: that is for the place where the
number stands. -/
def ofText (t : Text) : Except Fault Int :=
  let value :=
    match marked? t with
    | some (radix, body) => readSigned radix body
    | none => if isPlain t then readSigned 10 t else none
  match value with
  | some v => .ok v
  | none => .error (.malformedNumber t)

end Number

end Octasm
