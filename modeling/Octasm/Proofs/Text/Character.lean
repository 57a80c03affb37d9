import Mathlib
import Octasm.Text.Blank

/-!
# Characters

Which classes a character belongs to, and what becomes of it in capitals. The classes are ranges of
code points, so whatever is said here about one of them ends in arithmetic: blanks lie outside the
range that holds letters, digits and the underscore, and only the letters from `A` to `Z` have two
cases.

## Main definitions

* `Text.SameLetter`: two characters that differ in the case of an ASCII letter at most

## Main results

* `Text.isWord_eq_false`: no blank is part of a word
* `Text.eq_or_isAlpha`: characters with one capital
* `Text.sameName_iff`: two spellings of one name, character by character
-/

namespace Octasm

namespace Text

variable {c d : Char} {t u : Text}

/-! ### Classes -/

theorem isDigit_eq_false_of_isAlpha (h : c.isAlpha = true) : c.isDigit = false := by
  grind [Char.isAlpha, Char.isUpper, Char.isLower, Char.isDigit]

/-- Letters lie between `A` and `z`. -/
theorem toNat_of_isAlpha (h : c.isAlpha = true) : 65 ≤ c.toNat ∧ c.toNat ≤ 122 := by
  simp only [Char.isAlpha, Char.isUpper, Char.isLower, Bool.or_eq_true, Bool.and_eq_true,
    decide_eq_true_eq, UInt32.le_iff_toNat_le, ge_iff_le] at h
  change (65 ≤ c.toNat ∧ c.toNat ≤ 90) ∨ (97 ≤ c.toNat ∧ c.toNat ≤ 122) at h
  omega

/-- Letters, digits and the underscore lie between `0` and `z`. -/
theorem toNat_of_isWord (h : isWord c = true) : 48 ≤ c.toNat ∧ c.toNat ≤ 122 := by
  simp only [isWord, Char.isAlphanum, Bool.or_eq_true, beq_iff_eq] at h
  rcases h with (h | h) | rfl
  · have := toNat_of_isAlpha h
    omega
  · simp only [Char.isDigit, Bool.and_eq_true, decide_eq_true_eq, UInt32.le_iff_toNat_le,
      ge_iff_le] at h
    change 48 ≤ c.toNat ∧ c.toNat ≤ 57 at h
    omega
  · decide

/-- Blanks are spaces and controls, or lie beyond ASCII. -/
theorem toNat_of_isBlank (h : isBlank c = true) : c.toNat ≤ 32 ∨ 133 ≤ c.toNat := by
  simp only [isBlank, blankRanges, List.any_cons, List.any_nil, Bool.or_false, Bool.or_eq_true,
    Bool.and_eq_true, decide_eq_true_eq] at h
  omega

theorem isBlank_eq_false (h : isWord c = true) : isBlank c = false := by
  have hword := toNat_of_isWord h
  rw [Bool.eq_false_iff]
  intro hblank
  have hrange := toNat_of_isBlank hblank
  omega

/-- No blank is part of a word. -/
theorem isWord_eq_false (h : isBlank c = true) : isWord c = false := by
  rw [Bool.eq_false_iff]
  intro hword
  cases h.symm.trans (isBlank_eq_false hword)

/-- A character that is not blank is no blank. -/
theorem ne_of_isBlank (h : isBlank c = true) (hd : isBlank d = false) : c ≠ d := by
  rintro rfl
  cases h.symm.trans hd

theorem isDigit_eq_false_of_isBlank (h : isBlank c = true) : c.isDigit = false := by
  have hword := isWord_eq_false h
  simp only [isWord, Char.isAlphanum, Bool.or_eq_false_iff] at hword
  exact hword.1.2

theorem isAlpha_eq_false_of_isBlank (h : isBlank c = true) : c.isAlpha = false := by
  have hword := isWord_eq_false h
  simp only [isWord, Char.isAlphanum, Bool.or_eq_false_iff] at hword
  exact hword.1.1

/-! ### Capitals -/

theorem toUpper_of_isAlpha_eq_false (h : c.isAlpha = false) : c.toUpper = c := by
  refine Char.toUpper_eq_of_not_isLower fun hlower => ?_
  rw [Char.isAlpha, hlower, Bool.or_true] at h
  cases h

theorem isAlpha_congr (h : c.toUpper = d.toUpper) : c.isAlpha = d.isAlpha := by
  rw [← Char.isAlpha_toUpper_eq_isAlpha, h, Char.isAlpha_toUpper_eq_isAlpha]

/-- **Characters with one capital** are equal, or both are letters. -/
theorem eq_or_isAlpha (h : c.toUpper = d.toUpper) :
    c = d ∨ c.isAlpha = true ∧ d.isAlpha = true := by
  have hletter := isAlpha_congr h
  cases hc : c.isAlpha with
  | true => exact Or.inr ⟨rfl, hletter ▸ hc⟩
  | false =>
    rw [toUpper_of_isAlpha_eq_false hc, toUpper_of_isAlpha_eq_false (hletter ▸ hc)] at h
    exact Or.inl h

/-- A character that is no letter is the same in every spelling. -/
theorem eq_of_toUpper_eq (hd : d.isAlpha = false) (h : c.toUpper = d.toUpper) : c = d := by
  rcases eq_or_isAlpha h with hcd | ⟨-, hletter⟩
  · exact hcd
  · cases hd.symm.trans hletter

theorem isDigit_congr (h : c.toUpper = d.toUpper) : c.isDigit = d.isDigit := by
  rcases eq_or_isAlpha h with rfl | ⟨hc, hd⟩
  · rfl
  · rw [isDigit_eq_false_of_isAlpha hc, isDigit_eq_false_of_isAlpha hd]

theorem isNameHead_congr (h : c.toUpper = d.toUpper) : isNameHead c = isNameHead d := by
  rcases eq_or_isAlpha h with rfl | ⟨hc, hd⟩
  · rfl
  · simp only [isNameHead, hc, hd, Bool.or_true]

theorem isWord_congr (h : c.toUpper = d.toUpper) : isWord c = isWord d := by
  rcases eq_or_isAlpha h with rfl | ⟨hc, hd⟩
  · rfl
  · simp only [isWord, Char.isAlphanum, hc, hd, Bool.true_or]

/-! ### The case of a letter -/

/-- Two characters are equal, or they are the two cases of one of the letters from `A` to `Z`. -/
def SameLetter (c d : Char) : Prop :=
  c = d ∨ ∃ k < 26, (c.toNat = 65 + k ∧ d.toNat = 97 + k) ∨ (c.toNat = 97 + k ∧ d.toNat = 65 + k)

theorem toNat_toUpper (c : Char) :
    c.toUpper.toNat = if 97 ≤ c.toNat ∧ c.toNat ≤ 122 then c.toNat - 32 else c.toNat := by
  by_cases h : c.isLower = true
  · have hrange : 97 ≤ c.toNat ∧ c.toNat ≤ 122 := by
      simpa [Char.isLower, UInt32.le_iff_toNat_le] using h
    have hvalid : (c.toNat - 32).isValidChar := Or.inl (by omega)
    rw [Char.toUpper_eq_of_isLower h, Char.toNat_ofNat, if_pos hvalid, if_pos hrange]
  · have hrange : ¬ (97 ≤ c.toNat ∧ c.toNat ≤ 122) := by
      simpa [Char.isLower, UInt32.le_iff_toNat_le] using h
    rw [Char.toUpper_eq_of_not_isLower h, if_neg hrange]

theorem toUpper_eq_iff : c.toUpper = d.toUpper ↔ SameLetter c d := by
  rw [← Char.toNat_inj, toNat_toUpper, toNat_toUpper, SameLetter, ← Char.toNat_inj]
  constructor
  · intro h
    split at h <;> split at h
    · omega
    · exact Or.inr ⟨d.toNat - 65, by omega⟩
    · exact Or.inr ⟨c.toNat - 65, by omega⟩
    · omega
  · rintro (h | ⟨k, hk, h⟩)
    · rw [h]
    · split <;> split <;> omega

/-- **Two spellings of one name** have the same letters one by one. No character beyond ASCII has a
second case. -/
theorem sameName_iff : SameName t u ↔ List.Forall₂ SameLetter t u := by
  rw [SameName, upper, upper, ← List.forall₂_eq_eq_eq, List.forall₂_map_left_iff,
    List.forall₂_map_right_iff]
  simp only [toUpper_eq_iff]

end Text

end Octasm
