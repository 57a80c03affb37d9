import Octasm.Text.Ascii

/-!
# Styled text on a terminal

Styles are written as escape sequences whether or not anything interprets them. A style is switched
off by its own sequence, not by a general reset, so styles nest.
-/

namespace Octasm

namespace Terminal

/-- The sequences that switch a style on and off. -/
structure Style where
  on : List Nat
  off : List Nat

/-- Green letters. -/
def green : Style := ⟨[32], [39]⟩

/-- Red letters. -/
def red : Style := ⟨[31], [39]⟩

/-- Blue letters. -/
def blue : Style := ⟨[34], [39]⟩

/-- Red letters in bold. -/
def boldRed : Style := ⟨[31, 1], [39, 22]⟩

/-- Underlined letters. -/
def underline : Style := ⟨[4], [24]⟩

/-- The escape sequence of a code below a hundred. -/
def sequence (code : Nat) : Text := '\x1b' :: '[' :: Nat.toDigits 10 code ++ ['m']

/-- A text in a style. -/
def paint (s : Style) (t : Text) : Text := s.on.flatMap sequence ++ t ++ s.off.flatMap sequence

theorem paint_green (t : Text) : paint green t = "\x1b[32m".toList ++ t ++ "\x1b[39m".toList := rfl

theorem paint_red (t : Text) : paint red t = "\x1b[31m".toList ++ t ++ "\x1b[39m".toList := rfl

example : paint boldRed "error".toList = "\x1b[31m\x1b[1merror\x1b[39m\x1b[22m".toList := rfl

end Terminal

end Octasm
