import Octasm.Text.Blank

/-!
# Operand tokens

A token is taken off the front of a text together with what follows it. There are three shapes, and
the first character tells which one is meant, so no reader ever has to give a character back:

* a bracketed word with an optional signed number, `[SP+2]`
* one or more characters between two equal quotes, of which the first may be the quote itself
* a word that may start with a dot or a digit

Quotes close at the first chance after their first character, and no token reaches past a line
feed.
-/

namespace Octasm

namespace Token

/-! ### Brackets -/

/-- An optional sign with digits. A sign without digits is left where it is. -/
def signedDigits : Text → Text × Text
  | [] => ([], [])
  | c :: t =>
    if (c == '+' || c == '-') && (t.head?.any Char.isDigit) then
      (c :: t.takeWhile Char.isDigit, t.dropWhile Char.isDigit)
    else ([], c :: t)

/-- A bracketed word; the text starts after the bracket. -/
def bracketed? (t : Text) : Option (Text × Text) :=
  match t.takeWhile Text.isWord with
  | [] => none
  | c :: word =>
    let (offset, rest) := signedDigits (t.dropWhile Text.isWord)
    match rest with
    | ']' :: rest => some ('[' :: c :: word ++ offset ++ [']'], rest)
    | _ => none

/-! ### Quotes -/

/-- Characters up to and including the closing quote. -/
def untilQuote? (quote : Char) : Text → Option (Text × Text)
  | [] => none
  | c :: t =>
    if c = quote then some ([c], t)
    else if c = '\n' then none
    else (untilQuote? quote t).map fun (inside, rest) => (c :: inside, rest)

/-- Quoted characters; the text starts after the opening quote. -/
def quoted? (quote : Char) : Text → Option (Text × Text)
  | [] => none
  | c :: t =>
    if c = '\n' then none
    else (untilQuote? quote t).map fun (inside, rest) => (quote :: c :: inside, rest)

/-! ### Words -/

/-- A bare word may start with a dot, a letter or a digit. -/
def isBareHead (c : Char) : Bool := c == '.' || c.isAlphanum

/-- The operand token at the front of a text, and what follows it. -/
def ofText? : Text → Option (Text × Text)
  | [] => none
  | '[' :: t => bracketed? t
  | '"' :: t => quoted? '"' t
  | '\'' :: t => quoted? '\'' t
  | c :: t =>
    if isBareHead c then some (c :: t.takeWhile Text.isWord, t.dropWhile Text.isWord) else none

/-- The first character tells the shape of a token. -/
theorem ofText?_cons (c : Char) (t : Text) :
    ofText? (c :: t) = if c = '[' then bracketed? t
      else if c = '"' ∨ c = '\'' then quoted? c t
      else if isBareHead c then some (c :: t.takeWhile Text.isWord, t.dropWhile Text.isWord)
      else none := by
  rw [ofText?.eq_def]
  split
  · rename_i h
    cases h
  · rename_i h
    cases h
    rfl
  · rename_i h
    cases h
    rfl
  · rename_i h
    cases h
    rfl
  · rename_i hbracket hdouble hsingle h
    cases h
    have hquote : ¬ (c = '"' ∨ c = '\'') := not_or.mpr ⟨hdouble, hsingle⟩
    rw [if_neg hbracket, if_neg hquote]

end Token

end Octasm
