import Octasm.Text.Numeral

/-!
# What can be wrong with a source text

A `Fault` is a cause with the data that a report needs; the wording is in `Fault.message` and
nowhere else. Names in a fault keep the spelling of the source, except where the constructor says
that they are raised.
-/

namespace Octasm

/-- Quantities that have to fit in a byte. -/
inductive Quantity
  | number | address | character
  deriving DecidableEq, Repr

/-- The word for a quantity. -/
def Quantity.name : Quantity → String
  | number => "number"
  | address => "address"
  | character => "character"

/-- The causes for which a line or a whole program is refused. -/
inductive Fault
  /-- The line has neither a label nor a mnemonic and is not blank or a comment. -/
  | malformedLine
  /-- No mnemonic has this name. -/
  | unknownMnemonic (name : Text)
  /-- An earlier line declares the same label, perhaps in another case. -/
  | duplicateLabel (name : Text)
  /-- The label is the name of a register; the name is raised. -/
  | reservedLabel (name : Text)
  /-- The token is no number, or its offset has no digits. -/
  | malformedNumber (token : Text)
  /-- The value does not fit in a byte. -/
  | notAByte (what : Quantity)
  /-- The offset does not fit in five bits. -/
  | offsetOutOfRange (offset : Int)
  /-- Single quotes hold more than one character. -/
  | severalCharacters
  /-- An operand follows where the instruction takes no more; the name is raised. -/
  | tooManyOperands (mnemonic : Text)
  /-- An operand is missing, or the instruction has no form for these kinds; the name is raised. -/
  | unsupportedOperands (mnemonic : Text)
  /-- No line declares the label. -/
  | undefinedLabel (name : Text)
  /-- The label's address does not fit in a byte. -/
  | labelOutOfRange (name : Text) (address : Nat)
  deriving DecidableEq, Repr

namespace Fault

/-- A piece of source between backquotes. -/
def quoted (t : Text) : String := "`" ++ String.ofList t ++ "`"

/-- The report of a fault. -/
def message : Fault → String
  | malformedLine => "Syntax error"
  | unknownMnemonic name => "Invalid instruction: " ++ quoted name
  | duplicateLabel name => "Duplicate label: " ++ quoted name
  | reservedLabel name => "Label contains keyword: " ++ quoted name
  | malformedNumber token => "Invalid number format: " ++ quoted token
  | notAByte what => what.name ++ " must have a value between 0-255"
  | offsetOutOfRange offset =>
    "Offset must be a value between -16...+15, got " ++ String.ofList (Text.decimalInt offset)
  | severalCharacters => "Only one character is allowed. Use String instead"
  | tooManyOperands mnemonic => String.ofList mnemonic ++ ": too many arguments"
  | unsupportedOperands mnemonic => String.ofList mnemonic ++ " does not support this operands"
  | undefinedLabel name => "Undefined label: " ++ quoted name
  | labelOutOfRange name address =>
    "Label " ++ quoted name ++ " is at 0x" ++ String.ofList (Text.hex address)
      ++ ", outside of memory"

end Fault

end Octasm
