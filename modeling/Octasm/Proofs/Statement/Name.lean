import Octasm.Proofs.Line

/-!
# Names of labels

A name is looked at in three places: in front of a colon, as a word of its own, and between
brackets. Each has its own reader. In front of a colon stands exactly what `Text.isName` allows, and
nothing of it is left over. The other two are operands. A name has no delimiters, so as a word of
its own it is read as it stands; and what is between brackets is read without them.

## Main definitions

* `Text.Declarable`: a name that a label may have

## Main results

* `Statement.ofText_declaration`, `Statement.isName_of_label`: names stand in front of a colon, and
  nothing else does
* `Operand.ofText_bracketed`, `Operand.ofText_of_isName`: names with and without brackets
-/

namespace Octasm

/-- A label may have this name: it is shaped like one, and it is not the name of a register. -/
structure Text.Declarable (name : Text) : Prop where
  isName : name.isName = true
  unreserved : Register.ofText? name = none

/-! ### In front of a colon -/

namespace Text

variable {t u : Text} {c : Char}

/-- A name is a dot or a letter with word characters behind it. -/
theorem isName_iff : t.isName = true ↔
    ∃ c u, t = c :: u ∧ isNameHead c = true ∧ ∀ d ∈ u, isWord d = true := by
  cases t with
  | nil => simp [isName]
  | cons c u => simp [isName]

/-- A word ends at the first character that is no part of it. -/
theorem takeWhile_isWord_append (hu : ∀ d ∈ u, isWord d = true) (hc : isWord c = false) :
    (u ++ c :: t).takeWhile isWord = u := by
  rw [List.takeWhile_append_of_pos hu, List.takeWhile_cons_of_neg (by simp [hc]), List.append_nil]

theorem dropWhile_isWord_append (hu : ∀ d ∈ u, isWord d = true) (hc : isWord c = false) :
    (u ++ c :: t).dropWhile isWord = c :: t := by
  rw [List.dropWhile_append_of_pos hu, List.dropWhile_cons_of_neg (by simp [hc])]

theorem skipSeparators_cons (hc : isSeparator c = false) : skipSeparators (c :: t) = c :: t :=
  List.dropWhile_cons_of_neg (by simp [hc])

theorem isSeparator_eq_false (h : isNameHead c = true) : isSeparator c = false := by
  rw [Bool.eq_false_iff]
  intro hsep
  simp only [isSeparator, Bool.or_eq_true, beq_iff_eq] at hsep
  rcases hsep with rfl | rfl <;> cases h

end Text

namespace Statement

variable {t name : Text} {s : Statement}

theorem scanLabel_declaration (h : name.isName = true) (rest : Text) :
    scanLabel (name ++ ':' :: rest) = (some name, rest) := by
  obtain ⟨c, u, rfl, hc, hu⟩ := Text.isName_iff.mp h
  have hcolon : Text.isWord ':' = false := by decide
  rw [List.cons_append, scanLabel, if_pos hc, Text.dropWhile_isWord_append hu hcolon,
    Text.takeWhile_isWord_append hu hcolon]
  rfl

theorem isName_of_scanLabel (h : (scanLabel t).1 = some name) : name.isName = true := by
  cases t with
  | nil => cases h
  | cons c t =>
    rw [scanLabel] at h
    split at h
    · rename_i hc
      split at h
      · obtain rfl := Option.some.inj h
        refine Text.isName_iff.mpr ⟨c, _, rfl, hc, fun d hd => ?_⟩
        exact List.all_eq_true.mp List.all_takeWhile d hd
      · cases h
    · cases h

theorem label_scan (t : Text) : (scan t).label = (scanLabel t.skipSeparators).1 := by
  simp only [scan]
  split <;> rfl

/-- **A name with a colon** declares the name and does nothing else. -/
theorem ofText_declaration (h : name.isName = true) :
    ofText (name ++ [':']) = .ok { empty with label := some name } := by
  have hskip : Text.skipSeparators (name ++ [':']) = name ++ [':'] := by
    obtain ⟨c, u, rfl, hc, -⟩ := Text.isName_iff.mp h
    exact Text.skipSeparators_cons (Text.isSeparator_eq_false hc)
  have hscan : scan (name ++ [':']) = { empty with label := some name } := by
    rw [scan, hskip, scanLabel_declaration h]
    rfl
  rw [ofText_of_isEmpty_eq_false (by rw [hscan]; rfl), hscan]

/-- Nothing but a name stands in front of a colon. -/
theorem isName_of_label (hs : ofText t = .ok s) (h : s.label = some name) :
    name.isName = true := by
  rw [eq_scan_of_ofText hs, label_scan] at h
  exact isName_of_scanLabel h

end Statement

/-! ### Tokens -/

namespace Operand

variable {c closing opening : Char} {t token : Text}

theorem between?_eq_some_iff :
    between? opening closing token = some t ↔ token = opening :: t ++ [closing] := by
  constructor
  · intro h
    cases token with
    | nil => cases h
    | cons c u =>
      rw [between?] at h
      split at h
      · rename_i hends
        obtain ⟨rfl, hlast⟩ := hends
        obtain ⟨v, rfl⟩ := List.getLast?_eq_some_iff.mp hlast
        rw [List.dropLast_concat] at h
        cases h
        rfl
      · cases h
  · rintro rfl
    rw [List.cons_append, between?, if_pos ⟨rfl, List.getLast?_concat ..⟩, List.dropLast_concat]

/-- A token in brackets, as the operand between them. -/
theorem ofText_bracketed (t : Text) : ofText ('[' :: t ++ [']']) = inBrackets t := by
  rw [ofText, between?_eq_some_iff.mpr rfl]

theorem between?_eq_none (hc : c ≠ opening) :
    between? opening closing (c :: t) = none :=
  if_neg fun h => hc h.1

/-- A token that starts with no delimiter has none. -/
theorem ofText_eq_plain (hc : c ≠ '[' ∧ c ≠ '"' ∧ c ≠ '\'') :
    ofText (c :: t) = plain (c :: t) := by
  rw [ofText, between?_eq_none hc.1, between?_eq_none hc.2.1, between?_eq_none hc.2.2]

/-- A name stands without delimiters. -/
theorem ofText_of_isName (h : t.isName = true) : ofText t = plain t := by
  obtain ⟨c, u, rfl, hc, -⟩ := Text.isName_iff.mp h
  refine ofText_eq_plain ⟨?_, ?_, ?_⟩ <;> (rintro rfl; cases hc)

end Operand

end Octasm
