import Octasm.Proofs.Text.Character
import Octasm.Statement

/-!
# Blanks behind a line

What stands behind the last part of a line is ignored, but nothing in the reader looks for blanks
there, and most of them are not even separators: a carriage return or a no-break space is a
character like any other until a reader stops at it. So that blanks at the end change nothing has to
be shown for every reader and for every place at which it can stop, inside a word, behind a comma or
between two quotes that are still open.

One relation carries this through. Two texts *trail* if the second is the first with blanks behind
it. A reader takes the same part off the front of both, and what it leaves trails again.

## Main definitions

* `Text.Trails`: a text, and the same with blanks behind it
* `Text.ReadAlike`: the same part has been read off both, and what is left trails

## Main results

* `Token.ofText?_trails`: the operand token at the front
* `Statement.scan_trails`: the parts of a line
* `Statement.ofText_trails`: blanks behind a line do not change the statement
-/

namespace Octasm

/-! ### Texts that trail -/

namespace Text

/-- The second text is the first with blanks behind it. -/
inductive Trails : Text → Text → Prop
  | blank {u : Text} (h : ∀ c ∈ u, isBlank c = true) : Trails [] u
  | cons (c : Char) {t u : Text} (h : Trails t u) : Trails (c :: t) (c :: u)

variable {t u : Text}

theorem trails_append (t : Text) {tail : Text} (h : ∀ c ∈ tail, isBlank c = true) :
    Trails t (t ++ tail) := by
  induction t with
  | nil => exact .blank h
  | cons c t ih => exact .cons c ih

theorem trails_iff : Trails t u ↔ ∃ tail, u = t ++ tail ∧ ∀ c ∈ tail, isBlank c = true := by
  constructor
  · intro h
    induction h with
    | @blank u hu => exact ⟨u, rfl, hu⟩
    | cons c _ ih =>
      obtain ⟨tail, rfl, htail⟩ := ih
      exact ⟨tail, rfl, htail⟩
  · rintro ⟨tail, rfl, htail⟩
    exact trails_append t htail

theorem trails_trimEnd (t : Text) : Trails t.trimEnd t := by
  refine trails_iff.mpr ⟨(t.reverse.takeWhile isBlank).reverse, ?_, fun c hc => ?_⟩
  · rw [trimEnd, ← List.reverse_append, List.takeWhile_append_dropWhile, List.reverse_reverse]
  · exact List.all_eq_true.mp List.all_takeWhile c (List.mem_reverse.mp hc)

/-- A text without the blanks at its end does not end in one. -/
theorem getLast?_trimEnd (t : Text) : ∀ c ∈ t.trimEnd.getLast?, isBlank c = false := by
  intro c hc
  rw [trimEnd, List.getLast?_reverse] at hc
  have hhead := List.head?_dropWhile_not isBlank t.reverse
  rwa [show (t.reverse.dropWhile isBlank).head? = some c from hc] at hhead

namespace Trails

/-- A run of characters that are not blank ends where it ended. -/
theorem takeWhile {p : Char → Bool} (hp : ∀ {c}, isBlank c = true → p c = false)
    (h : Trails t u) : u.takeWhile p = t.takeWhile p := by
  induction h with
  | @blank u hu =>
    cases u with
    | nil => rfl
    | cons c u =>
      rw [List.takeWhile_cons, hp (hu c (List.mem_cons_self ..))]
      rfl
  | cons c _ ih => rw [List.takeWhile_cons, List.takeWhile_cons, ih]

theorem dropWhile (p : Char → Bool) (h : Trails t u) :
    Trails (t.dropWhile p) (u.dropWhile p) := by
  induction h with
  | @blank u hu => exact .blank fun c hc => hu c ((List.dropWhile_sublist p).subset hc)
  | cons c h ih =>
    rw [List.dropWhile_cons, List.dropWhile_cons]
    split
    · exact ih
    · exact .cons c h

theorem drop (n : Nat) (h : Trails t u) : Trails (t.drop n) (u.drop n) := by
  induction n generalizing t u with
  | zero => exact h
  | succ n ih =>
    cases h with
    | blank hu => exact .blank fun c hc => hu c (List.mem_of_mem_drop hc)
    | cons c h => exact ih h

theorem skipSeparators (h : Trails t u) : Trails t.skipSeparators u.skipSeparators :=
  h.dropWhile isSeparator

theorem head?_any {p : Char → Bool} (hp : ∀ {c}, isBlank c = true → p c = false)
    (h : Trails t u) : u.head?.any p = t.head?.any p := by
  cases h with
  | @blank u hu =>
    cases u with
    | nil => rfl
    | cons c u => exact hp (hu c (List.mem_cons_self ..))
  | cons c _ => rfl

/-- A character that is not blank is in front of both texts or of none. -/
theorem front {d : Char} (hd : isBlank d = false) (h : Trails t u) :
    (∃ t' u', t = d :: t' ∧ u = d :: u' ∧ Trails t' u') ∨
      (∀ t', t ≠ d :: t') ∧ ∀ u', u ≠ d :: u' := by
  cases h with
  | @blank u hu =>
    refine Or.inr ⟨fun _ => nofun, fun u' hu' => ?_⟩
    rw [hu'] at hu
    cases hd.symm.trans (hu d (List.mem_cons_self ..))
  | @cons c t u h =>
    by_cases hc : c = d
    · exact Or.inl ⟨t, u, by rw [hc], by rw [hc], h⟩
    · exact Or.inr ⟨fun t' ht => hc (List.cons.inj ht).1, fun u' hu => hc (List.cons.inj hu).1⟩

theorem trimEnd (h : Trails t u) : u.trimEnd = t.trimEnd := by
  obtain ⟨tail, rfl, htail⟩ := trails_iff.mp h
  rw [Text.trimEnd, List.reverse_append, List.dropWhile_append_of_pos, Text.trimEnd]
  intro c hc
  exact htail c (List.mem_reverse.mp hc)

theorem trim (h : Trails t u) : u.trim = t.trim := (h.dropWhile isBlank).trimEnd

end Trails

/-- The same part has been read off two texts, or none, and what is left of them trails. -/
def ReadAlike (x y : Option (Text × Text)) : Prop :=
  Option.Rel (fun r s => r.1 = s.1 ∧ Trails r.2 s.2) x y

theorem ReadAlike.map {x y : Option (Text × Text)} (h : ReadAlike x y) (f : Text → Text) :
    ReadAlike (x.map fun r => (f r.1, r.2)) (y.map fun r => (f r.1, r.2)) := by
  cases h with
  | none => exact .none
  | some h => exact .some ⟨congrArg f h.1, h.2⟩

end Text

open Text

/-! ### Operand tokens -/

namespace Token

variable {t u : Text}

theorem signedDigits_trails (h : Trails t u) :
    (signedDigits t).1 = (signedDigits u).1 ∧ Trails (signedDigits t).2 (signedDigits u).2 := by
  cases h with
  | @blank u hu =>
    cases u with
    | nil => exact ⟨rfl, .blank hu⟩
    | cons c u =>
      have hc := hu c (List.mem_cons_self ..)
      have hplus : c ≠ '+' := ne_of_isBlank hc (by decide)
      have hminus : c ≠ '-' := ne_of_isBlank hc (by decide)
      have hnone : signedDigits (c :: u) = ([], c :: u) := by simp [signedDigits, hplus, hminus]
      rw [hnone]
      exact ⟨rfl, .blank hu⟩
  | cons c h =>
    rw [signedDigits, signedDigits, h.head?_any isDigit_eq_false_of_isBlank,
      h.takeWhile isDigit_eq_false_of_isBlank]
    split
    · exact ⟨rfl, h.dropWhile _⟩
    · exact ⟨rfl, .cons c h⟩

theorem bracketed?_trails (h : Trails t u) : ReadAlike (bracketed? t) (bracketed? u) := by
  obtain ⟨hoffset, hrest⟩ := signedDigits_trails (h.dropWhile isWord)
  rw [bracketed?, bracketed?, h.takeWhile isWord_eq_false]
  cases t.takeWhile isWord with
  | nil => exact .none
  | cons c word =>
    dsimp only
    rw [← hoffset]
    rcases hrest.front (d := ']') (by decide) with ⟨r, s, hr, hs, hrs⟩ | ⟨hr, hs⟩
    · rw [hr, hs]
      exact .some ⟨rfl, hrs⟩
    · split
      · rename_i hclose
        exact absurd hclose (hr _)
      · exact .none

/-- Blanks close no quote. -/
theorem untilQuote?_blank {quote : Char} (hq : isBlank quote = false)
    (h : ∀ c ∈ u, isBlank c = true) : untilQuote? quote u = none := by
  induction u with
  | nil => rfl
  | cons c u ih =>
    rw [untilQuote?, if_neg (ne_of_isBlank (h c (List.mem_cons_self ..)) hq),
      ih fun d hd => h d (List.mem_cons_of_mem c hd), Option.map_none, ite_self]

theorem untilQuote?_trails {quote : Char} (hq : isBlank quote = false) (h : Trails t u) :
    ReadAlike (untilQuote? quote t) (untilQuote? quote u) := by
  induction h with
  | blank hu =>
    rw [untilQuote?_blank hq hu]
    exact .none
  | cons c h ih =>
    rw [untilQuote?, untilQuote?]
    split
    · exact .some ⟨rfl, h⟩
    · split
      · exact .none
      · exact ih.map (c :: ·)

theorem quoted?_trails {quote : Char} (hq : isBlank quote = false) (h : Trails t u) :
    ReadAlike (quoted? quote t) (quoted? quote u) := by
  cases h with
  | @blank u hu =>
    cases u with
    | nil => exact .none
    | cons c u =>
      rw [quoted?, quoted?, untilQuote?_blank hq fun d hd => hu d (List.mem_cons_of_mem c hd),
        Option.map_none, ite_self]
      exact .none
  | cons c h =>
    rw [quoted?, quoted?]
    split
    · exact .none
    · exact (untilQuote?_trails hq h).map fun inside => quote :: c :: inside

/-- A blank starts no token. -/
theorem ofText?_blank (h : ∀ c ∈ u, isBlank c = true) : ofText? u = none := by
  cases u with
  | nil => rfl
  | cons c u =>
    have hc := h c (List.mem_cons_self ..)
    have hbracket : c ≠ '[' := ne_of_isBlank hc (by decide)
    have hquote : ¬ (c = '"' ∨ c = '\'') :=
      not_or.mpr ⟨ne_of_isBlank hc (by decide), ne_of_isBlank hc (by decide)⟩
    have hdot : c ≠ '.' := ne_of_isBlank hc (by decide)
    have hbare : isBareHead c = false := by
      simp [isBareHead, Char.isAlphanum, hdot, isAlpha_eq_false_of_isBlank hc,
        isDigit_eq_false_of_isBlank hc]
    rw [ofText?_cons, if_neg hbracket, if_neg hquote, hbare]
    rfl

/-- **The operand token** at the front is the same. -/
theorem ofText?_trails (h : Trails t u) : ReadAlike (ofText? t) (ofText? u) := by
  cases h with
  | blank hu =>
    rw [ofText?_blank hu]
    exact .none
  | cons c h =>
    rw [ofText?_cons, ofText?_cons]
    split
    · exact bracketed?_trails h
    · split
      · rename_i hquote
        refine quoted?_trails ?_ h
        rcases hquote with rfl | rfl <;> decide
      · split
        · exact .some ⟨congrArg (c :: ·) (h.takeWhile isWord_eq_false).symm, h.dropWhile _⟩
        · exact .none

end Token

/-! ### Statements -/

namespace Statement

variable {t u : Text}

theorem scanLabel_trails (h : Trails t u) :
    (scanLabel t).1 = (scanLabel u).1 ∧ Trails (scanLabel t).2 (scanLabel u).2 := by
  cases h with
  | @blank u hu =>
    cases u with
    | nil => exact ⟨rfl, .blank hu⟩
    | cons c u =>
      have hc := hu c (List.mem_cons_self ..)
      have hdot : c ≠ '.' := ne_of_isBlank hc (by decide)
      have hhead : isNameHead c = false := by
        simp [isNameHead, hdot, isAlpha_eq_false_of_isBlank hc]
      rw [scanLabel, scanLabel, hhead]
      exact ⟨rfl, .blank hu⟩
  | @cons c t u h =>
    rw [scanLabel, scanLabel, h.takeWhile isWord_eq_false]
    split
    · rcases (h.dropWhile isWord).front (d := ':') (by decide) with ⟨r, s, hr, hs, hrs⟩ | ⟨hr, hs⟩
      · rw [hr, hs]
        exact ⟨rfl, hrs⟩
      · split
        · rename_i hcolon
          exact absurd hcolon (hr _)
        · exact ⟨rfl, .cons c h⟩
    · exact ⟨rfl, .cons c h⟩

theorem scanMnemonic_trails (h : Trails t u) : ReadAlike (scanMnemonic t) (scanMnemonic u) := by
  rw [scanMnemonic, scanMnemonic, h.takeWhile isAlpha_eq_false_of_isBlank]
  split
  · exact .none
  · exact .some ⟨rfl, h.drop _⟩

theorem scanFirst_trails (h : Trails t u) : ReadAlike (scanFirst t) (scanFirst u) := by
  rw [scanFirst, scanFirst]
  cases h with
  | @blank u hu =>
    have hskip : ∀ c ∈ u.skipSeparators, isBlank c = true :=
      fun c hc => hu c ((List.dropWhile_sublist _).subset hc)
    rw [Token.ofText?_blank hskip, ite_self]
    exact .none
  | cons c h =>
    rw [List.head?_cons, List.head?_cons]
    split
    · exact Token.ofText?_trails (h.cons c).skipSeparators
    · exact .none

theorem scanSecond_trails (h : Trails t u) : ReadAlike (scanSecond t) (scanSecond u) := by
  rw [scanSecond, scanSecond]
  rcases h.skipSeparators.front (d := ',') (by decide) with ⟨r, s, hr, hs, hrs⟩ | ⟨hr, hs⟩
  · rw [hr, hs]
    exact Token.ofText?_trails hrs.skipSeparators
  · split
    · rename_i hcomma
      exact absurd hcomma (hr _)
    · exact .none

theorem scanOperands_trails (h : Trails t u) : scanOperands t = scanOperands u := by
  have hfirst := scanFirst_trails h
  rw [scanOperands, scanOperands]
  generalize scanFirst t = x at hfirst
  generalize scanFirst u = y at hfirst
  cases hfirst with
  | none => rfl
  | @some x y hxy =>
    obtain ⟨first, rest⟩ := x
    obtain ⟨_, rest'⟩ := y
    obtain ⟨rfl, hrest⟩ : first = _ ∧ Trails rest rest' := hxy
    have hsecond := scanSecond_trails hrest
    dsimp only
    generalize scanSecond rest = x at hsecond
    generalize scanSecond rest' = y at hsecond
    cases hsecond with
    | none => rfl
    | some hxy => rw [Option.map_some, Option.map_some, hxy.1]

/-- **The parts of a line** are the same. -/
theorem scan_trails (h : Trails t u) : scan t = scan u := by
  obtain ⟨hlabel, hrest⟩ := scanLabel_trails h.skipSeparators
  have hmnemonic := scanMnemonic_trails hrest.skipSeparators
  simp only [scan, hlabel]
  generalize scanMnemonic (scanLabel t.skipSeparators).2.skipSeparators = x at hmnemonic
  generalize scanMnemonic (scanLabel u.skipSeparators).2.skipSeparators = y at hmnemonic
  cases hmnemonic with
  | none => rfl
  | some hxy => simp only [hxy.1, scanOperands_trails hxy.2]

/-- **Blanks behind a line** do not change its statement, nor whether it is one. -/
theorem ofText_trails (h : Trails t u) : ofText u = ofText t := by
  rw [ofText, ofText, scan_trails h, isIgnorable, isIgnorable, h.trim]

end Statement

end Octasm
