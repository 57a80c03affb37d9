import Octasm.Image.Hex
import Octasm.Text.Utf8

/-!
# Image files

An image is written as its raw bytes or as hexadecimal text.
-/

namespace Octasm

namespace Image

/-- How an image is written. -/
inductive Format
  | bin | hex
  deriving DecidableEq, Repr

/-- The format with exactly this name. -/
def Format.ofText? : Text → Option Format
  | ['b', 'i', 'n'] => some bin
  | ['h', 'e', 'x'] => some hex
  | _ => none

/-- The bytes of an image file. -/
def fileBytes : Format → List UInt8 → List UInt8
  | .bin, code => code
  | .hex, code => (Hex.render code).toUtf8

end Image

end Octasm
