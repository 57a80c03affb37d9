import Octasm.Text.Ascii

/-!
# Names as YAML scalars

A name is written plain if a YAML reader takes it for a string, and in single quotes if it would be
read as something else: the null and boolean words, the words for infinity and not-a-number, and
decimal fractions.

A fraction counts only if its value is finite as a 64-bit float, that is, if it rounds below
`2 ^ 1024`. Exponents may be of any length, so that is settled by the position of the leading digit
wherever possible, and a power of ten is formed only for values of three hundred and nine places.

## Main definitions

* `Scalar.fraction?`: the digits and the exponent of a fraction
* `Scalar.isFinite`: does it have a finite value?
* `Scalar.render`: the name as a scalar
-/

namespace Octasm

namespace Scalar

/-! ### Words with a meaning -/

/-- Words that are read as null, a boolean, an infinity or not-a-number. -/
def reserved : List String :=
  ["null", "Null", "NULL", "true", "True", "TRUE", "false", "False", "FALSE",
    ".inf", ".Inf", ".INF", ".nan", ".NaN", ".NAN"]

/-! ### Fractions -/

/-- The digits after the point, and the exponent, of a fraction without a sign. -/
def fraction? : Text → Option (Text × Nat)
  | '.' :: t =>
    let digits := t.takeWhile Char.isDigit
    if digits.isEmpty then none
    else
      match t.dropWhile Char.isDigit with
      | [] => some (digits, 0)
      | e :: exponent =>
        if (e == 'e' || e == 'E') && !exponent.isEmpty && exponent.all Char.isDigit then
          some (digits, Nat.ofDigitChars 10 exponent 0)
        else none
  | _ => none

/-- The least number that does not round to a finite 64-bit float: half a step above the largest
of them, fifty-four ones in binary and then 970 zeros. -/
def overflow : Nat := 0x3FFFFFFFFFFFFF <<< 970

/-- Is `0.digits` times ten to the exponent finite as a 64-bit float? The value has as many places
before the point as the exponent says, less the zeros that the digits start with. -/
def isFinite (digits : Text) (exponent : Nat) : Bool :=
  let significant := digits.dropWhile (· == '0')
  let zeros := digits.length - significant.length
  if significant.isEmpty || exponent < 309 + zeros then true
  else if 309 + zeros < exponent then false
  else
    decide (Nat.ofDigitChars 10 digits 0 * Nat.pow 10 (exponent - digits.length)
      < overflow * Nat.pow 10 (digits.length - exponent))

/-! ### Scalars -/

/-- Would the name be read as something other than a string? -/
def needsQuotes (name : Text) : Bool :=
  reserved.any (fun word => word.toList == name)
    || (fraction? name).any fun (digits, exponent) => isFinite digits exponent

/-- The scalar of a name. Names hold no quotes, so none has to be escaped. -/
def render (name : Text) : Text :=
  if needsQuotes name then '\'' :: name ++ ['\''] else name

example : overflow = (2 ^ 54 - 1) * 2 ^ 970 := by decide +kernel

example : needsQuotes ".5".toList = true ∧ needsQuotes ".5x".toList = false := by decide

example :
    isFinite ['1'] 309 = true ∧ isFinite ['2'] 309 = false ∧ isFinite ['0'] 999 = true := by
  decide +kernel

end Scalar

end Octasm
