import Octasm.Text.Ascii

/-!
# Text as bytes

A source file has to be well-formed UTF-8; a byte order mark is not skipped, it is a character like
any other.
-/

namespace Octasm

namespace Text

/-- The UTF-8 bytes of a text. -/
def toUtf8 (t : Text) : List UInt8 := t.flatMap String.utf8EncodeChar

/-- The number of its UTF-8 bytes. -/
def utf8Length (t : Text) : Nat := t.foldr (fun c n => c.utf8Size + n) 0

/-- The text that the bytes encode, if they are well-formed UTF-8. -/
def ofUtf8? (bytes : List UInt8) : Option Text :=
  bytes.toByteArray.utf8Decode?.map Array.toList

theorem utf8Length_eq (t : Text) : t.utf8Length = t.toUtf8.length := by
  induction t with
  | nil => rfl
  | cons c t ih =>
    rw [toUtf8, List.flatMap_cons, List.length_append, String.length_utf8EncodeChar]
    exact congrArg (c.utf8Size + ·) ih

/-- Every text is read back from its bytes. -/
theorem ofUtf8?_toUtf8 (t : Text) : ofUtf8? (toUtf8 t) = some t := by
  have h : (toUtf8 t).toByteArray = t.utf8Encode := by simp [toUtf8, List.utf8Encode]
  simp [ofUtf8?, h]

/-- Different texts have different bytes. -/
theorem toUtf8_injective {t u : Text} (h : toUtf8 t = toUtf8 u) : t = u := by
  have hread := ofUtf8?_toUtf8 t
  rw [h, ofUtf8?_toUtf8] at hread
  exact (Option.some.inj hread).symm

end Text

end Octasm
