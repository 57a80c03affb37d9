import Octasm.Text.Ascii

/-!
# Blank characters

Blank means the `White_Space` property of Unicode, twenty-five characters in ten ranges. It is
wider than `Char.isWhitespace`, which knows four ASCII characters: a source line that holds only
no-break spaces is an empty line, and a number may have them in front.

The line reader has its own, narrower separator: inside a statement only tab and space count, so a
carriage return at the end of a line is never skipped over on the way to an operand.
-/

namespace Octasm

namespace Text

/-! ### The property -/

/-- The ranges of blank code points, both ends included, in ascending order. -/
def blankRanges : List (Nat × Nat) :=
  [(0x09, 0x0D), (0x20, 0x20), (0x85, 0x85), (0xA0, 0xA0), (0x1680, 0x1680), (0x2000, 0x200A),
    (0x2028, 0x2029), (0x202F, 0x202F), (0x205F, 0x205F), (0x3000, 0x3000)]

/-- Does the character have the `White_Space` property? -/
def isBlank (c : Char) : Bool :=
  blankRanges.any fun r => r.1 ≤ c.toNat && c.toNat ≤ r.2

example : (blankRanges.map fun r => r.2 + 1 - r.1).sum = 25 := by decide

example : blankRanges.Pairwise fun r s => r.2 < s.1 := by decide

/-- The four ASCII blanks of `Char.isWhitespace` are blank here too. -/
theorem isBlank_of_isWhitespace {c : Char} (h : c.isWhitespace = true) : isBlank c = true := by
  simp only [Char.isWhitespace, Bool.or_eq_true, decide_eq_true_eq] at h
  rcases h with ((rfl | rfl) | rfl) | rfl <;> decide

/-! ### Trimming -/

/-- The text without the blanks it starts with. -/
def trimStart (t : Text) : Text := t.dropWhile isBlank

/-- The text without the blanks it ends with. -/
def trimEnd (t : Text) : Text := (t.reverse.dropWhile isBlank).reverse

/-- The text without blanks at either end. -/
def trim (t : Text) : Text := trimEnd (trimStart t)

/-! ### Separators inside a statement -/

/-- Only tab and space separate the parts of a statement. -/
def isSeparator (c : Char) : Bool := c == '\t' || c == ' '

/-- The text without the tabs and spaces it starts with. -/
def skipSeparators (t : Text) : Text := t.dropWhile isSeparator

end Text

end Octasm
