import Octasm.Text.Lines
import Octasm.Text.Numeral

/-!
# Hexadecimal images

An image as text has sixteen bytes to a row. A byte is two upper-case digits, bytes of a row are
separated by single spaces, and every row is ended by a line feed, the last one too. An image
without bytes is an empty text.

## Main definitions

* `Hex.rows`: the bytes of each row
* `Hex.render`: the text
-/

namespace Octasm

namespace Hex

/-- Rows of sixteen bytes, of which the last may be shorter. None is empty. -/
def rows : List UInt8 → List (List UInt8)
  | [] => []
  | b :: bs => (b :: bs.take 15) :: rows (bs.drop 15)
termination_by bytes => bytes.length
decreasing_by
  simp only [List.length_drop, List.length_cons]
  omega

/-- The bytes of a row. -/
def renderRow (row : List UInt8) : Text := [' '].intercalate (row.map Text.hexByte)

/-- The text of an image. -/
def render (bytes : List UInt8) : Text := Text.unlines ((rows bytes).map renderRow)

/-- Cutting into rows loses nothing. -/
theorem flatten_rows (bytes : List UInt8) : (rows bytes).flatten = bytes := by
  fun_induction rows bytes with
  | case1 => rfl
  | case2 b bs ih => simp [ih]

end Hex

end Octasm
