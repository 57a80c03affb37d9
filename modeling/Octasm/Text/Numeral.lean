import Octasm.Text.Ascii

/-!
# Numerals as they are printed

Addresses and line numbers are printed in decimal, bytes in two upper-case hexadecimal digits.

## Main results

* `decimal_injective`: a decimal numeral determines its number
-/

namespace Octasm

namespace Text

/-! ### Decimal -/

/-- The decimal numeral of a number, without leading zeros. -/
def decimal (n : Nat) : Text := Nat.toDigits 10 n

theorem decimal_injective {m n : Nat} (h : decimal m = decimal n) : m = n := by
  have := congrArg (fun t => Nat.ofDigitChars 10 t 0) h
  simpa [decimal, Nat.ofDigitChars_ten_toDigits] using this

/-- A decimal numeral is made of digits. -/
theorem isDigit_of_mem_decimal {n : Nat} {c : Char} (h : c ∈ decimal n) : c.isDigit = true :=
  Nat.isDigit_of_mem_toDigits (by decide) (by decide) h

/-- The decimal numeral of an integer, with a minus for the negative ones. -/
def decimalInt : Int → Text
  | .ofNat n => decimal n
  | .negSucc n => '-' :: decimal (n + 1)

/-! ### Hexadecimal -/

/-- The hexadecimal numeral of a number, in upper case and without leading zeros. -/
def hex (n : Nat) : Text := upper (Nat.toDigits 16 n)

/-- The upper-case hexadecimal digit of a number below sixteen. -/
def hexDigit (n : Nat) : Char := (Nat.digitChar n).toUpper

/-- A byte as two hexadecimal digits. -/
def hexByte (b : UInt8) : Text := [hexDigit (b.toNat / 16), hexDigit (b.toNat % 16)]

/-! ### Columns -/

/-- Fill up with spaces on the left to a width. -/
def alignRight (width : Nat) (t : Text) : Text := t.leftpad width ' '

/-- Fill up with spaces on the right to a width. -/
def alignLeft (width : Nat) (t : Text) : Text := t.rightpad width ' '

end Text

end Octasm
