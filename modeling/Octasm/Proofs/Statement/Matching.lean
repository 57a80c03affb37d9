import Octasm.Proofs.Text.Character
import Octasm.Proofs.Text.Pattern
import Octasm.Statement

/-!
# The pattern of a line

A line may also be described by one regular expression. In the usual notation, with an operand token
spelled out once,

```
operand  \[[A-Za-z0-9_]+(?:[+-][0-9]+)?\]|".+?"|'.+?'|[.A-Za-z0-9][A-Za-z0-9_]*

^[\t ]*(?:(?P<label>[.A-Za-z][A-Za-z0-9_]*):)?
  (?:[\t ]*(?P<mnemonic>[A-Za-z]{2,4})
    (?:[\t ]+(?P<op1>operand)(?:[\t ]*,[\t ]*(?P<op2>operand))?)?)?
```

A matcher for it may go back: take fewer letters for the mnemonic, close a quoted token at a later
quote, give a tab back. The reader in `Octasm.Statement` never does, and both agree on every text.
What keeps the matcher from going back is the same everywhere. A run of characters is followed by
something that starts with a character of another kind, so giving part of the run back never helps;
and once a part is complete all that follows is optional, so the first match is kept.

## Main definitions

* `Token.pattern`: the pattern of an operand token
* `Statement.pattern`: the pattern of a line
* `Statement.groups`: the parts of a statement under the names of the groups

## Main results

* `Token.first?_pattern`: the pattern of an operand token matches what the reader takes
* `Token.quoted?_eq_some_iff`: a quoted token ends at the first quote it can end at
* `Statement.pattern_matches`: on every text the groups of the pattern are the parts of the
  line, and they decide whether the line is accepted
-/

namespace Octasm

/-! ### Classes of characters -/

namespace Ranges

/-- `[A-Za-z]` -/
def letters : Ranges := [('A', 'Z'), ('a', 'z')]

/-- `[0-9]` -/
def digits : Ranges := [('0', '9')]

/-- `[A-Za-z0-9_]` -/
def word : Ranges := letters ++ digits ++ [('_', '_')]

/-- `[.A-Za-z]` -/
def nameHead : Ranges := ('.', '.') :: letters

/-- `[.A-Za-z0-9]` -/
def bareHead : Ranges := ('.', '.') :: (letters ++ digits)

/-- `[\t ]` -/
def separators : Ranges := [('\t', '\t'), (' ', ' ')]

/-- `[+-]` -/
def signs : Ranges := [('+', '+'), ('-', '-')]

/-- The dot of a pattern, which stands for every character but a line feed. -/
def nonNewline : Ranges := [(Char.ofNat 0, '\t'), (Char.ofNat 0x0B, Char.ofNat 0x10FFFF)]

theorem has_letters : has letters = Char.isAlpha := by
  funext c
  simp only [has, letters, List.any_cons, List.any_nil, Bool.or_false, Char.isAlpha, Char.isUpper,
    Bool.decide_and]
  rfl

theorem has_digits : has digits = Char.isDigit := by
  funext c
  simp only [has, digits, List.any_cons, List.any_nil, Bool.or_false]
  rfl

theorem has_word : has word = Text.isWord := by
  funext c
  rw [word, has_append, has_append, has_letters, has_digits, has_cons_self, Text.isWord,
    Char.isAlphanum, has, List.any_nil, Bool.or_false]

theorem has_nameHead : has nameHead = Text.isNameHead := by
  funext c
  rw [nameHead, has_cons_self, has_letters, Text.isNameHead]

theorem has_bareHead : has bareHead = Token.isBareHead := by
  funext c
  rw [bareHead, has_cons_self, has_append, has_letters, has_digits, Token.isBareHead,
    Char.isAlphanum]

theorem has_separators : has separators = Text.isSeparator := by
  funext c
  rw [separators, has_cons_self, has_cons_self, has, List.any_nil, Bool.or_false, Text.isSeparator]

theorem has_signs (c : Char) : has signs c = (c == '+' || c == '-') := by
  rw [signs, has_cons_self, has_cons_self, has, List.any_nil, Bool.or_false]

theorem has_signs_of_has_word {c : Char} (h : has word c = true) : has signs c = false := by
  have hplus := ne_of_has h (d := '+') (by decide)
  have hminus := ne_of_has h (d := '-') (by decide)
  rw [has_signs, beq_false_of_ne hplus, beq_false_of_ne hminus, Bool.or_false]

theorem has_nonNewline (c : Char) : has nonNewline c = (c != '\n') := by
  have hrange : (c.toNat ≤ 9 ∨ 11 ≤ c.toNat ∧ c.toNat ≤ 0x10FFFF) ↔ c ≠ '\n' := by
    have hvalid : c.toNat < 0xD800 ∨ 0xDFFF < c.toNat ∧ c.toNat < 0x110000 := c.valid
    rw [Ne, ← Char.toNat_inj]
    change _ ↔ ¬ c.toNat = 10
    omega
  rw [Bool.eq_iff_iff, bne_iff_ne, ← hrange]
  simp only [has, nonNewline, List.any_cons, List.any_nil, Bool.or_false, Bool.or_eq_true,
    Bool.and_eq_true, decide_eq_true_eq, Char.le_def, UInt32.le_iff_toNat_le]
  change (0 ≤ c.toNat ∧ c.toNat ≤ 9) ∨ (11 ≤ c.toNat ∧ c.toNat ≤ 0x10FFFF) ↔ _
  omega

end Ranges

/-! ### Operand tokens -/

namespace Token

open Pattern

variable {γ : Type} {quote c : Char} {t : Text}

/-- What a reader has taken and what it has left, as a match. -/
def toMatch (r : Text × Text) : Match γ := ⟨r.1, r.2, []⟩

/-- `(?:[+-][0-9]+)?` -/
def offsetPattern : Pattern γ := optional (seq (one Ranges.signs) (many true 1 none Ranges.digits))

/-- `\[[A-Za-z0-9_]+(?:[+-][0-9]+)?\]` -/
def bracketPattern : Pattern γ :=
  seq (char '[') (seq (many true 1 none Ranges.word) (seq offsetPattern (char ']')))

/-- `".+?"`, for either quote. -/
def quotePattern (quote : Char) : Pattern γ :=
  seq (char quote) (seq (many false 1 none Ranges.nonNewline) (char quote))

/-- `[.A-Za-z0-9][A-Za-z0-9_]*` -/
def barePattern : Pattern γ := seq (one Ranges.bareHead) (many true 0 none Ranges.word)

/-- The pattern of an operand token. -/
def pattern : Pattern γ :=
  alt bracketPattern (alt (quotePattern '"') (alt (quotePattern '\'') barePattern))

/-- Where no sign with digits stands, the offset is empty. -/
theorem commits_offsetPattern_of_eq_nil
    (h : (seq (one Ranges.signs) (many true 1 none Ranges.digits) : Pattern γ).candidates t = []) :
    (offsetPattern : Pattern γ).Commits (Ranges.signs ++ Ranges.digits) t ⟨[], t, []⟩ := by
  refine ⟨[], ?_, fun n hn => nomatch hn⟩
  rw [offsetPattern, Pattern.optional, candidates, h]
  rfl

/-- The offset is the longest one: a shorter one leaves a digit, or its sign. -/
theorem commits_offsetPattern (t : Text) :
    (offsetPattern : Pattern γ).Commits (Ranges.signs ++ Ranges.digits) t
      (toMatch (signedDigits t)) := by
  cases t with
  | nil => exact commits_offsetPattern_of_eq_nil rfl
  | cons c t =>
    rw [signedDigits, ← Ranges.has_signs, ← Ranges.has_digits]
    cases hc : Ranges.signs.has c with
    | false => exact commits_offsetPattern_of_eq_nil (candidates_one_seq_of_not hc ..)
    | true =>
      cases hd : t.head?.any Ranges.digits.has with
      | false =>
        refine commits_offsetPattern_of_eq_nil ?_
        rw [candidates_one_seq hc, candidates_many_one_of_not hd, List.map_nil]
      | true =>
        have hdigits : (seq (one Ranges.signs) (many true 1 none Ranges.digits) : Pattern γ).Commits
            Ranges.digits (c :: t) _ :=
          (commits_many (one_le_count_iff.mpr hd)).one_seq hc
        have hmono := hdigits.mono (r := Ranges.signs ++ Ranges.digits) fun d hd => by
          rw [Ranges.has_append, hd, Bool.or_true]
        exact hmono.optional (by rw [Ranges.has_append, hc, Bool.true_or])

/-- Between the word and the closing bracket nothing is given back. -/
theorem candidates_offset_seq (t : Text) :
    (seq offsetPattern (char ']') : Pattern γ).candidates t
      = ((char ']').candidates (signedDigits t).2).map (toMatch (signedDigits t)).append :=
  (commits_offsetPattern t).candidates_seq fun _ u hc => candidates_char_of_has hc (by decide) u

/-- No part of a word can stand for the offset or for the bracket. -/
theorem candidates_offset_seq_of_word (hc : Ranges.word.has c = true) (u : Text) :
    (seq offsetPattern (char ']') : Pattern γ).candidates (c :: u) = [] := by
  rw [candidates_offset_seq, signedDigits, ← Ranges.has_signs, Ranges.has_signs_of_has_word hc]
  exact List.map_eq_nil_iff.mpr (candidates_char_of_has hc (by decide) u)

theorem first?_bracketPattern (t : Text) :
    (bracketPattern : Pattern γ).first? ('[' :: t) = (bracketed? t).map toMatch := by
  rw [bracketPattern, first?_char_seq, bracketed?, ← Ranges.has_word]
  cases hword : t.takeWhile Ranges.word.has with
  | nil =>
    have hnone : t.head?.any Ranges.word.has = false := by
      rw [Bool.eq_false_iff, Ne, ← one_le_count_iff, count, hword]
      exact Nat.not_succ_le_zero 0
    rw [first?, candidates_seq_of_eq_nil (candidates_many_one_of_not hnone)]
    rfl
  | cons c word =>
    have hcount : 1 ≤ count Ranges.word t := by
      rw [count, hword]
      exact Nat.le_add_left ..
    rw [(commits_many hcount).first?_seq fun _ u hd => candidates_offset_seq_of_word hd u, first?,
      candidates_offset_seq, hword]
    dsimp only
    generalize signedDigits (t.dropWhile Ranges.word.has) = r
    obtain ⟨offset, rest⟩ := r
    cases rest with
    | nil => rfl
    | cons d rest =>
      rw [candidates_char]
      by_cases hd : d = ']'
      · rw [if_pos hd, hd]
        simp [Match.append, toMatch]
      · rw [if_neg hd]
        simp [hd]

theorem untilQuote?_append {u : Text} (hquote : quote ∉ u) (hbreak : '\n' ∉ u) (rest : Text) :
    untilQuote? quote (u ++ quote :: rest) = some (u ++ [quote], rest) := by
  induction u with
  | nil => rw [List.nil_append, List.nil_append, untilQuote?, if_pos rfl]
  | cons c u ih =>
    obtain ⟨hc, hquote⟩ := List.ne_and_not_mem_of_not_mem_cons hquote
    obtain ⟨hc', hbreak⟩ := List.ne_and_not_mem_of_not_mem_cons hbreak
    rw [List.cons_append, untilQuote?, if_neg hc.symm, if_neg hc'.symm, ih hquote hbreak]
    rfl

theorem exists_of_untilQuote? {inside rest : Text} (h : untilQuote? quote t = some (inside, rest)) :
    ∃ u, inside = u ++ [quote] ∧ t = u ++ quote :: rest ∧ quote ∉ u ∧ '\n' ∉ u := by
  induction t generalizing inside with
  | nil => cases h
  | cons c t ih =>
    rw [untilQuote?] at h
    split at h
    · rename_i hquote
      cases h
      exact ⟨[], by rw [hquote]; rfl, by rw [hquote]; rfl, List.not_mem_nil, List.not_mem_nil⟩
    · rename_i hquote
      split at h
      · cases h
      · rename_i hbreak
        obtain ⟨⟨inside, rest⟩, ht, he⟩ := Option.map_eq_some_iff.mp h
        cases he
        obtain ⟨u, rfl, rfl, hu, hbreaks⟩ := ih ht
        exact ⟨c :: u, rfl, rfl, List.not_mem_cons_of_ne_of_not_mem (Ne.symm hquote) hu,
          List.not_mem_cons_of_ne_of_not_mem (Ne.symm hbreak) hbreaks⟩

/-- **A quoted token** has at least one character between its quotes, which may be the quote itself,
and ends at the first quote behind that character. -/
theorem quoted?_eq_some_iff {token rest : Text} :
    quoted? quote t = some (token, rest) ↔
      ∃ c u, token = quote :: c :: u ++ [quote] ∧ t = c :: u ++ quote :: rest ∧
        quote ∉ u ∧ '\n' ∉ c :: u := by
  constructor
  · intro h
    cases t with
    | nil => cases h
    | cons c t =>
      rw [quoted?] at h
      split at h
      · cases h
      · rename_i hbreak
        obtain ⟨⟨inside, rest⟩, ht, he⟩ := Option.map_eq_some_iff.mp h
        cases he
        obtain ⟨u, rfl, rfl, hu, hbreaks⟩ := exists_of_untilQuote? ht
        exact ⟨c, u, rfl, rfl, hu, List.not_mem_cons_of_ne_of_not_mem (Ne.symm hbreak) hbreaks⟩
  · rintro ⟨c, u, rfl, rfl, hu, hbreaks⟩
    obtain ⟨hc, hbreaks⟩ := List.ne_and_not_mem_of_not_mem_cons hbreaks
    rw [List.cons_append, quoted?, if_neg hc.symm, untilQuote?_append hu hbreaks]
    rfl

example : quoted? '"' "\"\" ; a quote".toList = some ("\"\"\"".toList, " ; a quote".toList) := by
  decide

/-- A quoted token is closed at the first chance. -/
theorem first?_lazy_quote (quote : Char) (t : Text) :
    (seq (many false 0 none Ranges.nonNewline) (char quote) : Pattern γ).first? t
      = (untilQuote? quote t).map toMatch := by
  induction t with
  | nil => rfl
  | cons c t ih =>
    rw [first?_lazy_seq_cons, first?_lazy_one_seq_cons, ih, first?_char_cons, untilQuote?,
      Ranges.has_nonNewline]
    by_cases hquote : c = quote
    · rw [if_pos hquote, if_pos hquote]
      rfl
    by_cases hbreak : c = '\n'
    · rw [if_neg hquote, if_neg hquote, hbreak]
      rfl
    · rw [if_neg hquote, if_neg hquote, if_neg hbreak, if_pos (bne_iff_ne.mpr hbreak),
        Option.none_or, Option.map_map, Option.map_map]
      rfl

theorem first?_quotePattern (quote : Char) (t : Text) :
    (quotePattern quote : Pattern γ).first? (quote :: t) = (quoted? quote t).map toMatch := by
  rw [quotePattern, first?_char_seq]
  cases t with
  | nil => rfl
  | cons c t =>
    rw [first?_lazy_one_seq_cons, first?_lazy_quote, quoted?, Ranges.has_nonNewline]
    by_cases hbreak : c = '\n'
    · rw [hbreak]
      rfl
    · rw [if_neg hbreak, if_pos (bne_iff_ne.mpr hbreak), Option.map_map, Option.map_map,
        Option.map_map]
      rfl

theorem first?_barePattern (c : Char) (t : Text) :
    (barePattern : Pattern γ).first? (c :: t)
      = if isBareHead c then some (toMatch (c :: t.takeWhile Text.isWord, t.dropWhile Text.isWord))
        else none := by
  rw [barePattern, ← Ranges.has_bareHead, ← Ranges.has_word]
  cases hc : Ranges.bareHead.has c with
  | false => exact first?_one_seq_of_not hc ..
  | true => exact ((commits_many (Nat.zero_le _)).one_seq hc).first?

/-- **Operand tokens.** The pattern matches what the reader takes. -/
theorem first?_pattern (t : Text) :
    (pattern : Pattern γ).first? t = (ofText? t).map toMatch := by
  cases t with
  | nil => rfl
  | cons c t =>
    rw [pattern, first?_alt, first?_alt, first?_alt, ofText?_cons]
    by_cases hbracket : c = '['
    · rw [if_pos hbracket, hbracket, first?_bracketPattern, quotePattern, quotePattern,
        first?_char_seq_of_ne (by decide), first?_char_seq_of_ne (by decide), first?_barePattern,
        Option.none_or, Option.none_or]
      exact Option.or_none
    rw [if_neg hbracket, bracketPattern, first?_char_seq_of_ne hbracket, Option.none_or]
    by_cases hdouble : c = '"'
    · rw [if_pos (Or.inl hdouble), hdouble, first?_quotePattern, quotePattern,
        first?_char_seq_of_ne (by decide), first?_barePattern, Option.none_or]
      exact Option.or_none
    rw [quotePattern, first?_char_seq_of_ne hdouble, Option.none_or]
    by_cases hsingle : c = '\''
    · rw [if_pos (Or.inr hsingle), hsingle, first?_quotePattern, first?_barePattern]
      exact Option.or_none
    rw [if_neg (not_or.mpr ⟨hdouble, hsingle⟩), quotePattern, first?_char_seq_of_ne hsingle,
      Option.none_or, first?_barePattern]
    split <;> rfl

end Token

/-! ### Lines -/

namespace Statement

open Pattern

/-- The groups of the pattern. -/
inductive Part | label | mnemonic | first | second
  deriving DecidableEq, Repr

/-- `[\t ]*` -/
def blanksPattern : Pattern Part := many true 0 none Ranges.separators

/-- `(?P<label>[.A-Za-z][A-Za-z0-9_]*):` -/
def labelPattern : Pattern Part :=
  seq (group .label (seq (one Ranges.nameHead) (many true 0 none Ranges.word))) (char ':')

/-- `[\t ]*,[\t ]*(?P<op2>operand)` -/
def secondPattern : Pattern Part :=
  seq blanksPattern (seq (char ',') (seq blanksPattern (group .second Token.pattern)))

/-- `[\t ]+(?P<op1>operand)(?:…)?` -/
def firstPattern : Pattern Part :=
  seq (many true 1 none Ranges.separators)
    (seq (group .first Token.pattern) (Pattern.optional secondPattern))

/-- `[\t ]*(?P<mnemonic>[A-Za-z]{2,4})(?:…)?` -/
def mnemonicPattern : Pattern Part :=
  seq blanksPattern
    (seq (group .mnemonic (many true 2 (some 4) Ranges.letters)) (Pattern.optional firstPattern))

/-- The pattern of a line. -/
def pattern : Pattern Part :=
  seq blanksPattern (seq (Pattern.optional labelPattern) (Pattern.optional mnemonicPattern))

/-- The parts of a statement under the names of the groups. -/
def groups (s : Statement) : List (Part × Text) :=
  (s.label.map (Part.label, ·)).toList ++ (s.mnemonic.map (Part.mnemonic, ·)).toList ++
    (s.first.map (Part.first, ·)).toList ++ (s.second.map (Part.second, ·)).toList

/-- The statement with the parts that the groups hold. -/
def ofGroups (g : List (Part × Text)) : Statement :=
  ⟨g.lookup .label, g.lookup .mnemonic, g.lookup .first, g.lookup .second⟩

theorem ofGroups_groups (s : Statement) : ofGroups s.groups = s := by
  obtain ⟨_ | label, _ | mnemonic, _ | first, _ | second⟩ := s <;> rfl

variable {c : Char} {p : Pattern Part}

/-! ### Parts of a line -/

theorem isSeparator_iff : Text.isSeparator c = true ↔ c = '\t' ∨ c = ' ' := by
  rw [Text.isSeparator, Bool.or_eq_true, beq_iff_eq, beq_iff_eq]

theorem candidates_group_token (hc : Ranges.separators.has c = true) (name : Part) (u : Text) :
    (group name Token.pattern).candidates (c :: u) = [] := by
  have hnone : (Token.pattern : Pattern Part).first? (c :: u) = none := by
    rw [Ranges.has_separators, isSeparator_iff] at hc
    rw [Token.first?_pattern]
    rcases hc with rfl | rfl <;> rfl
  rw [candidates, List.head?_eq_none_iff.mp hnone, List.map_nil]

/-- Separators are taken as a whole in front of what cannot start with one. -/
theorem captures?_blanks_seq
    (hp : ∀ c u, Ranges.separators.has c = true → p.candidates (c :: u) = []) (t : Text) :
    (seq blanksPattern p).captures? t = p.captures? t.skipSeparators := by
  rw [blanksPattern, (commits_many (Nat.zero_le _)).captures?_seq hp, Ranges.has_separators]
  exact Option.map_id'

theorem captures?_secondPattern (t : Text) :
    secondPattern.captures? t = (scanSecond t).map fun r => [(Part.second, r.1)] := by
  have htoken : ∀ u, (seq blanksPattern (group Part.second Token.pattern)).captures? u
      = (Token.ofText? u.skipSeparators).map fun r => [(Part.second, r.1)] := by
    intro u
    rw [captures?_blanks_seq fun c v hc => candidates_group_token hc _ v, captures?, first?_group,
      Token.first?_pattern, Option.map_map, Option.map_map]
    rfl
  rw [secondPattern, captures?_blanks_seq fun c u hc =>
    candidates_seq_of_eq_nil (candidates_char_of_has hc (by decide) u) _, scanSecond]
  cases t.skipSeparators with
  | nil => rfl
  | cons c u =>
    by_cases hc : c = ','
    · rw [hc, captures?, first?_char_seq, Option.map_map]
      exact htoken u
    · rw [captures?, first?_char_seq_of_ne hc]
      simp [hc]

theorem captures?_firstPattern (t : Text) :
    firstPattern.captures? t = (scanFirst t).map fun r =>
      (Part.first, r.1) :: ((scanSecond r.2).map fun r => (Part.second, r.1)).toList := by
  rw [firstPattern, scanFirst, ← Ranges.has_separators]
  cases ht : t.head?.any Ranges.separators.has with
  | false =>
    rw [captures?, first?, candidates_seq_of_eq_nil (candidates_many_one_of_not ht)]
    rfl
  | true =>
    rw [if_pos rfl, (commits_many (one_le_count_iff.mpr ht)).captures?_seq fun c u hc =>
      candidates_seq_of_eq_nil (candidates_group_token hc _ u) _, captures?_seq (total_optional _),
      first?_group, Token.first?_pattern, Ranges.has_separators]
    change Option.map _
      (Option.bind (Option.map _ (Option.map _ (Token.ofText? t.skipSeparators))) _) = _
    cases Token.ofText? t.skipSeparators with
    | none => rfl
    | some r =>
      simp only [Option.map_some, Option.bind_some, captures?_optional, Token.toMatch,
        captures?_secondPattern]
      cases scanSecond r.2 <;> rfl

/-- The operands of a line under the names of their groups. -/
theorem captures?_optional_firstPattern (t : Text) :
    (Pattern.optional firstPattern).captures? t
      = some (((scanOperands t).1.map (Part.first, ·)).toList ++
          ((scanOperands t).2.map (Part.second, ·)).toList) := by
  rw [captures?_optional, captures?_firstPattern, scanOperands]
  cases scanFirst t with
  | none => rfl
  | some r =>
    simp only [Option.map_some, Option.map_map]
    rfl

theorem first?_letters (t : Text) :
    (many true 2 (some 4) Ranges.letters : Pattern Part).first? t
      = (scanMnemonic t).map Token.toMatch := by
  have hreach : reach (some 4) Ranges.letters t = ((t.takeWhile Char.isAlpha).take 4).length := by
    rw [reach, Option.elim_some, count, Ranges.has_letters, List.length_take, Nat.min_comm]
  have htake : t.take ((t.takeWhile Char.isAlpha).take 4).length
      = (t.takeWhile Char.isAlpha).take 4 :=
    (List.prefix_iff_eq_take.mp
      ((List.take_prefix 4 _).trans (List.takeWhile_prefix Char.isAlpha))).symm
  rw [first?_many, hreach, prefixMatch, htake, scanMnemonic, List.length_take]
  split
  · rw [if_neg (by omega)]
    rfl
  · rw [if_pos (by omega)]
    rfl

theorem candidates_letters (hc : Ranges.separators.has c = true) (u : Text) :
    (many true 2 (some 4) Ranges.letters : Pattern Part).candidates (c :: u) = [] := by
  have hletter : Ranges.letters.has c = false := by
    rw [Ranges.has_separators, isSeparator_iff] at hc
    rcases hc with rfl | rfl <;> decide
  refine candidates_many_of_lt ?_
  rw [reach, count, List.takeWhile_cons_of_neg (by simp [hletter])]
  decide

theorem captures?_mnemonicPattern (t : Text) :
    mnemonicPattern.captures? t = (scanMnemonic t.skipSeparators).map fun r =>
      (Part.mnemonic, r.1) :: (((scanOperands r.2).1.map (Part.first, ·)).toList ++
        ((scanOperands r.2).2.map (Part.second, ·)).toList) := by
  have hblank : ∀ c u, Ranges.separators.has c = true →
      (seq (group Part.mnemonic (many true 2 (some 4) Ranges.letters))
        (Pattern.optional firstPattern)).candidates (c :: u) = [] := by
    intro c u hc
    refine candidates_seq_of_eq_nil ?_ _
    rw [candidates, candidates_letters hc, List.map_nil]
  rw [mnemonicPattern, captures?_blanks_seq hblank, captures?_seq (total_optional _), first?_group,
    first?_letters]
  cases scanMnemonic t.skipSeparators with
  | none => rfl
  | some r =>
    simp only [Option.map_some, Option.bind_some, captures?_optional_firstPattern, Token.toMatch]
    rfl

theorem first?_labelPattern (t : Text) :
    labelPattern.first? t = (scanLabel t).1.map fun label =>
      ⟨label ++ [':'], (scanLabel t).2, [(Part.label, label)]⟩ := by
  cases t with
  | nil => rfl
  | cons c t =>
    rw [labelPattern, scanLabel, ← Ranges.has_nameHead, ← Ranges.has_word]
    cases hc : Ranges.nameHead.has c with
    | false =>
      rw [first?, candidates_seq_of_eq_nil]
      · rfl
      · rw [candidates, candidates_one_seq_of_not hc, List.map_nil]
    | true =>
      have hname := ((commits_many (s := Ranges.word) (t := t) (Nat.zero_le _)).one_seq hc).group
        Part.label
      rw [hname.first?_seq fun d u hd => candidates_char_of_has hd (by decide) u, if_pos rfl]
      dsimp only
      cases t.dropWhile Ranges.word.has with
      | nil => rfl
      | cons d u =>
        rw [Match.append, first?_char_cons]
        by_cases hd : d = ':'
        · rw [if_pos hd, hd]
          rfl
        · rw [if_neg hd]
          simp [hd]

/-- Without a label the text is left as it is. -/
theorem snd_scanLabel {t : Text} (h : (scanLabel t).1 = none) : (scanLabel t).2 = t := by
  cases t with
  | nil => rfl
  | cons c t =>
    simp only [scanLabel] at h ⊢
    split at h
    · split at h
      · cases h
      · rw [if_pos ‹_›]
    · rw [if_neg ‹_›]

theorem first?_optional_labelPattern (t : Text) :
    ∃ taken, (Pattern.optional labelPattern).first? t
      = some ⟨taken, (scanLabel t).2, ((scanLabel t).1.map (Part.label, ·)).toList⟩ := by
  rw [first?_optional, first?_labelPattern]
  cases h : (scanLabel t).1 with
  | none => exact ⟨[], by rw [snd_scanLabel h]; rfl⟩
  | some label => exact ⟨label ++ [':'], rfl⟩

/-- **The groups of the pattern** are the parts of the line. -/
theorem captures?_pattern (t : Text) : pattern.captures? t = some (scan t).groups := by
  obtain ⟨taken, hlabel⟩ := first?_optional_labelPattern t.skipSeparators
  have hblanks : blanksPattern.first? t
      = some ⟨t.takeWhile Text.isSeparator, t.skipSeparators, []⟩ := by
    rw [blanksPattern, (commits_many (Nat.zero_le _)).first?, Ranges.has_separators]
    rfl
  rw [pattern, captures?_seq ((total_optional _).seq (total_optional _)), hblanks, Option.bind_some,
    captures?_seq (total_optional _), hlabel, Option.bind_some, captures?_optional,
    captures?_mnemonicPattern, scan]
  dsimp only
  cases scanMnemonic (Text.skipSeparators (scanLabel t.skipSeparators).2) with
  | none => simp [groups, empty]
  | some r => simp [groups]

/-- **The pattern of a line.** On every text it matches at the front, and in the match that is found
each part of the line is held by its group, and a part that is not there by none. The parts decide
whether the line is a statement. -/
theorem pattern_matches (t : Text) :
    ∃ m, pattern.first? t = some m ∧ m.taken ++ m.rest = t ∧ m.groups = (scan t).groups ∧
      ofText t = if (ofGroups m.groups).isEmpty && !isIgnorable t then .error .malformedLine
        else .ok (ofGroups m.groups) := by
  obtain ⟨m, hm, hgroups⟩ := Option.map_eq_some_iff.mp (captures?_pattern t)
  refine ⟨m, hm, taken_append_rest (List.mem_of_head? hm), hgroups, ?_⟩
  rw [hgroups, ofGroups_groups]
  rfl

end Statement

end Octasm
