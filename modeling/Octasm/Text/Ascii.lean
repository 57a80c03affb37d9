/-!
# Text and its ASCII rules

The library reads and writes `Text`, a list of characters: every reader below is a structural
recursion or a `takeWhile`, and a list is what those lemmas are about. `String` appears only where
a constant of the language is spelled out and at the very edge of a program.

Names fold case by the ASCII rule only. `É` and `é` are different letters here, and so are `K`
and the Kelvin sign, because `Char.toUpper` moves nothing but `a` to `z`.

## Main definitions

* `Text`: characters in order
* `Text.upper`: raise the ASCII letters
* `Text.SameName`: equality of names up to ASCII case
* `Text.isNameHead`, `Text.isWord`: the two character classes that words are made of
* `Text.isName`: the words that may name an address
-/

namespace Octasm

/-- Characters in order. -/
abbrev Text := List Char

namespace Text

/-! ### Case -/

/-- The text with `a` to `z` raised; no other character changes. -/
def upper (t : Text) : Text := t.map Char.toUpper

@[simp] theorem upper_nil : upper [] = [] := rfl

@[simp] theorem upper_cons (c : Char) (t : Text) : upper (c :: t) = c.toUpper :: upper t := rfl

@[simp] theorem upper_append (s t : Text) : upper (s ++ t) = upper s ++ upper t :=
  List.map_append

@[simp] theorem length_upper (t : Text) : (upper t).length = t.length :=
  List.length_map _

/-- Two spellings of one name. -/
def SameName (s t : Text) : Prop := upper s = upper t

instance (s t : Text) : Decidable (SameName s t) :=
  inferInstanceAs (Decidable (upper s = upper t))

theorem SameName.refl (t : Text) : SameName t t := rfl

theorem SameName.symm {s t : Text} (h : SameName s t) : SameName t s := Eq.symm h

theorem SameName.trans {s t u : Text} (h : SameName s t) (k : SameName t u) : SameName s u :=
  Eq.trans h k

/-! ### Words -/

/-- A name starts with a dot or an ASCII letter. -/
def isNameHead (c : Char) : Bool := c == '.' || c.isAlpha

/-- After its first character a name goes on with ASCII letters, digits and underscores. -/
def isWord (c : Char) : Bool := c.isAlphanum || c == '_'

/-- The words that may name an address: `loop`, `.data`, `row_2`. -/
def isName : Text → Bool
  | [] => false
  | c :: t => isNameHead c && t.all isWord

/-! ### Optional signs -/

/-- Take one sign off the front. The flag is set for a minus. -/
def takeSign : Text → Bool × Text
  | '-' :: t => (true, t)
  | '+' :: t => (false, t)
  | t => (false, t)

end Text

end Octasm
