import Mathlib.Data.List.DropRight
import Octasm.Proofs.Statement.Matching
import Octasm.Proofs.Statement.Name

/-!
# The front of a line

In front of the instruction of a line there may be a label with its colon, and tabs and spaces
around it. `Statement.Opening` says what such a front looks like, without a reader. What a line has
behind its front is its body, and the mnemonic and the operands are read from there alone.

A front and a body make one line only, but not any two texts are the front and the body of their
line. A body must not start with a separator, which would belong to the front; and behind a front
without a label it must not start with a label.

## Main definitions

* `Statement.Opening`: a front, with or without a label
* `Statement.body`: what is behind the front of a line

## Main results

* `Statement.scanLabel_eq_some_iff`: labels at the front of a text
* `Statement.exists_opening`: every line is a front and its body
* `Statement.Opening.body_eq`: the body of a line that is made of a front and a body
* `Statement.scanMnemonic_word`: the word at the front of a body
-/

namespace Octasm

/-! ### Separators -/

namespace Text

variable {lead t u rest : Text} {p : Char → Bool}

/-- A run ends where a character follows that is no part of it, or nothing. -/
theorem takeWhile_append_of_head? (hu : ∀ c ∈ u, p c = true)
    (hrest : ∀ c ∈ rest.head?, p c = false) : (u ++ rest).takeWhile p = u := by
  rw [List.takeWhile_append_of_pos hu]
  cases rest with
  | nil => rw [List.takeWhile_nil, List.append_nil]
  | cons c rest => rw [List.takeWhile_cons_of_neg (by simp [hrest c rfl]), List.append_nil]

/-- Letters are no separators. -/
theorem isSeparator_eq_false_of_isAlpha {c : Char} (h : c.isAlpha = true) :
    isSeparator c = false :=
  isSeparator_eq_false (by rw [isNameHead, h, Bool.or_true])

theorem skipSeparators_append (hlead : ∀ c ∈ lead, isSeparator c = true) (t : Text) :
    skipSeparators (lead ++ t) = skipSeparators t :=
  List.dropWhile_append_of_pos hlead

theorem skipSeparators_eq_self (h : ∀ c ∈ t.head?, isSeparator c = false) :
    t.skipSeparators = t := by
  cases t with
  | nil => rfl
  | cons c t => exact skipSeparators_cons (h c rfl)

/-- Separators at the front, and what is behind them. -/
theorem exists_separators (t : Text) :
    ∃ lead, (∀ c ∈ lead, isSeparator c = true) ∧ t = lead ++ t.skipSeparators :=
  ⟨t.takeWhile isSeparator, fun _ hc => List.all_eq_true.mp List.all_takeWhile _ hc,
    List.takeWhile_append_dropWhile.symm⟩

theorem skipSeparators_skipSeparators (t : Text) :
    t.skipSeparators.skipSeparators = t.skipSeparators :=
  List.dropWhile_idempotent isSeparator t

end Text

namespace Statement

variable {t u front name rest word : Text} {label : Option Text}

/-! ### Labels -/

/-- A label at the front of a text is a name with a colon behind it. -/
theorem scanLabel_eq_some_iff :
    scanLabel t = (some name, rest) ↔ name.isName = true ∧ t = name ++ ':' :: rest := by
  constructor
  · intro h
    refine ⟨isName_of_scanLabel (congrArg Prod.fst h), ?_⟩
    cases t with
    | nil => cases h
    | cons c t =>
      rw [scanLabel] at h
      split at h
      · split at h
        · rename_i hcolon
          cases h
          rw [List.cons_append, ← hcolon, List.takeWhile_append_dropWhile]
        · cases h
      · cases h
  · rintro ⟨hname, rfl⟩
    exact scanLabel_declaration hname rest

/-! ### Fronts -/

/-- What may stand in front of an instruction: separators, or a label with its colon and separators
on both sides. -/
inductive Opening : Option Text → Text → Prop
  | plain {lead : Text} (hlead : ∀ c ∈ lead, Text.isSeparator c = true) : Opening none lead
  | labelled {lead name gap : Text} (hlead : ∀ c ∈ lead, Text.isSeparator c = true)
      (hname : name.isName = true) (hgap : ∀ c ∈ gap, Text.isSeparator c = true) :
      Opening (some name) (lead ++ (name ++ ':' :: gap))

/-- What a line has behind its front. -/
def body (t : Text) : Text := (scanLabel t.skipSeparators).2.skipSeparators

/-- The mnemonic and the operands are read from the body. -/
theorem scan_eq (t : Text) :
    scan t = match scanMnemonic (body t) with
      | none => { empty with label := (scan t).label }
      | some (mnemonic, rest) =>
        ⟨(scan t).label, some mnemonic, (scanOperands rest).1, (scanOperands rest).2⟩ := by
  rw [label_scan, scan]
  rfl

/-- **Every line** is a front with its label, and its body. -/
theorem exists_opening (t : Text) :
    ∃ front, Opening (scan t).label front ∧ t = front ++ body t := by
  obtain ⟨lead, hlead, ht⟩ := t.exists_separators
  rw [label_scan, body]
  cases hlabel : (scanLabel t.skipSeparators).1 with
  | none =>
    rw [snd_scanLabel hlabel, Text.skipSeparators_skipSeparators]
    exact ⟨lead, .plain hlead, ht⟩
  | some name =>
    obtain ⟨hname, hsplit⟩ := scanLabel_eq_some_iff.mp (Prod.ext hlabel rfl)
    obtain ⟨gap, hgap, hrest⟩ := (scanLabel t.skipSeparators).2.exists_separators
    refine ⟨_, .labelled hlead hname hgap, ?_⟩
    rw [List.append_assoc, List.append_assoc, List.cons_append, ← hrest, ← hsplit, ← ht]

/-- **A front and a body** are those of the line that they make. -/
theorem Opening.body_eq (h : Opening label front) (hu : ∀ c ∈ u.head?, Text.isSeparator c = false)
    (hnone : label = none → (scanLabel u).1 = none) :
    (scan (front ++ u)).label = label ∧ body (front ++ u) = u := by
  rw [label_scan, body]
  cases h with
  | plain hlead =>
    rw [Text.skipSeparators_append hlead, Text.skipSeparators_eq_self hu, snd_scanLabel (hnone rfl)]
    exact ⟨hnone rfl, Text.skipSeparators_eq_self hu⟩
  | @labelled lead name gap hlead hname hgap =>
    have hskip : Text.skipSeparators (name ++ ':' :: (gap ++ u)) = name ++ ':' :: (gap ++ u) := by
      obtain ⟨c, v, rfl, hc, -⟩ := Text.isName_iff.mp hname
      exact Text.skipSeparators_cons (Text.isSeparator_eq_false hc)
    rw [List.append_assoc, List.append_assoc, List.cons_append, Text.skipSeparators_append hlead,
      hskip, scanLabel_declaration hname]
    exact ⟨rfl, by rw [Text.skipSeparators_append hgap, Text.skipSeparators_eq_self hu]⟩

/-! ### Words -/

/-- Of the word at the front of a text the first four letters are read. -/
theorem scanMnemonic_word (hword : ∀ c ∈ word, c.isAlpha = true)
    (hrest : ∀ c ∈ rest.head?, c.isAlpha = false) (hlength : 2 ≤ word.length) :
    scanMnemonic (word ++ rest) = some (word.take 4, word.drop 4 ++ rest) := by
  have hsplit : word ++ rest = word.take 4 ++ (word.drop 4 ++ rest) := by
    rw [← List.append_assoc, List.take_append_drop]
  have hdrop : (word ++ rest).drop (word.take 4).length = word.drop 4 ++ rest := by
    rw [hsplit, List.drop_left]
  rw [scanMnemonic, Text.takeWhile_append_of_head? hword hrest, if_neg (by omega), hdrop]

end Statement

end Octasm
