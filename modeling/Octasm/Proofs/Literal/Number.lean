import Mathlib
import Octasm.Literal.Number
import Octasm.Proofs.Text.Character

/-!
# What a number literal denotes

A literal denotes a sign and a natural number of any size. The number is that of its digits, the
highest first, and has nothing to do with the limit that the reader keeps to: `Nat.ofDigits` is the
reference. What the reader answers is then one equation. Bounding the value after every digit comes
to the same as bounding the number once, because a value that has reached the limit stays there.

A marked literal is read leniently and a plain one is not. The relation `Denotes` has a rule for
each, and no text falls under both: a plain literal has no letters, and every mark has one. A body
that is read leniently is taken apart by three readers, one for the blanks, one for the sign and one
for the digits. Each of them takes what it can, so the parts are determined by the text
(`lenient_iff`), and nothing else about the readers is needed afterwards.

## Main definitions

* `Number.Writes`, `Number.Numeral`: digits, and texts of digits, in a radix
* `Number.Lenient`: blanks, a sign, a numeral, and anything behind it
* `Number.Marked`: the mark of the radix, looked for in order
* `Number.Denotes`: the sign and the number of a literal
* `Number.inWord`, `Number.readSignedInWord`: the same reading in a signed word of sixty-four bits

## Main results

* `Number.bounded_eq_min`: bounding at every step is bounding once
* `Number.ofText_eq_ok_iff`, `Number.ofText_eq_error_iff`: which texts are literals, and their value
* `Number.Denotes.unique`: a text denotes one number at most
* `Number.map_toInt_readSignedInWord`, `Number.toInt_mul_inWord`: no word overflows on the way
-/

namespace Octasm

namespace Number

variable {c : Char} {d n radix : Nat} {sign value : Int} {t body mark run rest : Text}
  {digits : List Nat}

/-! ### Digits -/

/-- The character stands for the digit, in either case. There are sixteen digits. -/
def Writes (radix : Nat) (c : Char) (d : Nat) : Prop :=
  d < radix ∧ d < 16 ∧ (c = d.digitChar ∨ c = d.digitChar.toUpper)

theorem toNat_digitChar : ∀ d < 16, d.digitChar.toNat = if d < 10 then 48 + d else 87 + d := by
  decide

theorem toNat_toUpper_digitChar :
    ∀ d < 16, d.digitChar.toUpper.toNat = if d < 10 then 48 + d else 55 + d := by
  decide

/-- Digits by their code points. -/
theorem writes_iff : Writes radix c d ↔ d < radix ∧ (c.toNat = 48 + d ∧ d < 10 ∨
    c.toNat = 87 + d ∧ 10 ≤ d ∧ d < 16 ∨ c.toNat = 55 + d ∧ 10 ≤ d ∧ d < 16) := by
  rw [Writes, ← Char.toNat_inj, ← Char.toNat_inj]
  refine and_congr_right fun _ => ?_
  constructor
  · rintro ⟨hd, h⟩
    rw [toNat_digitChar d hd, toNat_toUpper_digitChar d hd] at h
    split at h <;> omega
  · intro h
    have hd : d < 16 := by omega
    refine ⟨hd, ?_⟩
    rw [toNat_digitChar d hd, toNat_toUpper_digitChar d hd]
    split <;> omega

theorem hexValue?_eq_some_iff : hexValue? c = some d ↔ c.toNat = 48 + d ∧ d < 10 ∨
    c.toNat = 87 + d ∧ 10 ≤ d ∧ d < 16 ∨ c.toNat = 55 + d ∧ 10 ≤ d ∧ d < 16 := by
  simp only [hexValue?, Char.le_def, UInt32.le_iff_toNat_le]
  change (if 48 ≤ c.toNat ∧ c.toNat ≤ 57 then some (c.toNat - 48)
    else if 97 ≤ c.toNat ∧ c.toNat ≤ 102 then some (c.toNat - 97 + 10)
    else if 65 ≤ c.toNat ∧ c.toNat ≤ 70 then some (c.toNat - 65 + 10) else none) = some d ↔ _
  split
  · rw [Option.some.injEq]
    omega
  · split
    · rw [Option.some.injEq]
      omega
    · split
      · rw [Option.some.injEq]
        omega
      · simp only [reduceCtorEq, false_iff]
        omega

theorem digit?_eq_some_iff : digit? radix c = some d ↔ Writes radix c d := by
  rw [digit?, Option.filter_eq_some_iff, hexValue?_eq_some_iff, decide_eq_true_iff, writes_iff,
    and_comm]

/-- A digit is part of a word, so it is neither a blank nor a sign. -/
theorem Writes.isWord (h : Writes radix c d) : Text.isWord c = true := by
  rw [writes_iff] at h
  simp only [Text.isWord, Char.isAlphanum, Char.isAlpha, Char.isUpper, Char.isLower, Char.isDigit,
    Bool.or_eq_true, Bool.and_eq_true, decide_eq_true_eq, UInt32.le_iff_toNat_le, ge_iff_le,
    beq_iff_eq]
  change (((65 ≤ c.toNat ∧ c.toNat ≤ 90) ∨ (97 ≤ c.toNat ∧ c.toNat ≤ 122)) ∨
    (48 ≤ c.toNat ∧ c.toNat ≤ 57)) ∨ _
  omega

/-- The decimal digits are those of `Char.isDigit`. -/
theorem exists_writes_ten_iff : (∃ d, Writes 10 c d) ↔ c.isDigit = true := by
  simp only [writes_iff, Char.isDigit, Bool.and_eq_true, decide_eq_true_eq, UInt32.le_iff_toNat_le,
    ge_iff_le]
  change _ ↔ 48 ≤ c.toNat ∧ c.toNat ≤ 57
  constructor
  · rintro ⟨d, h⟩
    omega
  · intro h
    exact ⟨c.toNat - 48, by omega⟩

/-- In a radix up to ten no digit is a letter. -/
theorem Writes.isDigit (h : Writes radix c d) (hradix : radix ≤ 10) : c.isDigit = true :=
  exists_writes_ten_iff.mp ⟨d, Nat.lt_of_lt_of_le h.1 hradix, h.2⟩

/-! ### Runs of digits -/

/-- The text goes on with no digit. -/
def Ends (radix : Nat) (rest : Text) : Prop := ∀ c ∈ rest.head?, ∀ d, ¬ Writes radix c d

theorem ends_nil (radix : Nat) : Ends radix [] := fun _ h => by cases h

theorem leadingDigits_append (hrun : List.Forall₂ (Writes radix) run digits)
    (hrest : Ends radix rest) : leadingDigits radix (run ++ rest) = digits := by
  induction hrun with
  | nil =>
    cases rest with
    | nil => rfl
    | cons c rest =>
      have hnone : digit? radix c = none := by
        rw [Option.eq_none_iff_forall_ne_some]
        intro d hd
        exact hrest c rfl d (digit?_eq_some_iff.mp hd)
      rw [List.nil_append, leadingDigits, hnone]
  | cons hc _ ih => rw [List.cons_append, leadingDigits, digit?_eq_some_iff.mpr hc, ih]

/-- The digits that are read are those of the longest run. -/
theorem exists_run (radix : Nat) (t : Text) : ∃ run rest, t = run ++ rest ∧
    List.Forall₂ (Writes radix) run (leadingDigits radix t) ∧ Ends radix rest := by
  induction t with
  | nil => exact ⟨[], [], rfl, .nil, ends_nil radix⟩
  | cons c t ih =>
    rw [leadingDigits]
    cases hc : digit? radix c with
    | some d =>
      obtain ⟨run, rest, ht, hrun, hrest⟩ := ih
      exact ⟨c :: run, rest, congrArg (c :: ·) ht, .cons (digit?_eq_some_iff.mp hc) hrun, hrest⟩
    | none =>
      refine ⟨[], c :: t, rfl, .nil, fun e he d hd => ?_⟩
      cases he
      rw [← digit?_eq_some_iff, hc] at hd
      cases hd

/-! ### The bound -/

theorem bounded_concat (radix : Nat) (digits : List Nat) (d : Nat) :
    bounded radix (digits ++ [d]) = min (bounded radix digits * radix + d) limit :=
  List.foldl_concat ..

/-- A value that has been bounded before the next digit has the same bound behind it. -/
theorem min_mul_add (radix v d : Nat) :
    min (min v limit * radix + d) limit = min (v * radix + d) limit := by
  rcases Nat.le_total v limit with hv | hv
  · rw [Nat.min_eq_left hv]
  · rcases Nat.eq_zero_or_pos radix with rfl | hradix
    · rw [Nat.mul_zero, Nat.mul_zero]
    · have hlimit : limit ≤ limit * radix := Nat.le_mul_of_pos_right limit hradix
      have hvalue : limit * radix ≤ v * radix := Nat.mul_le_mul_right radix hv
      rw [Nat.min_eq_right hv]
      omega

/-- **Bounding at every step is bounding once.** The induction is on the last digit, because the
fold ends there. -/
theorem bounded_eq_min (radix : Nat) (digits : List Nat) :
    bounded radix digits = min (Nat.ofDigits radix digits.reverse) limit := by
  induction digits using List.reverseRecOn with
  | nil => rfl
  | append_singleton digits d ih =>
    rw [bounded_concat, ih, min_mul_add, List.reverse_concat, Nat.ofDigits_cons, Nat.add_comm,
      Nat.mul_comm]

/-- Bounding moves no number into a range below the limit, and none out of it. -/
theorem mul_min_limit_mem_iff {low high : Int} (hsign : sign = 1 ∨ sign = -1)
    (hlow : -(limit : Int) < low) (hhigh : high < limit) :
    (low ≤ sign * (min n limit : Nat) ∧ sign * (min n limit : Nat) ≤ high) ↔
      low ≤ sign * n ∧ sign * n ≤ high := by
  rcases hsign with rfl | rfl <;> omega

/-- Below the limit the bounded value is the exact one. -/
theorem mul_min_limit_eq_iff (hsign : sign = 1 ∨ sign = -1)
    (hvalue : -(limit : Int) < value ∧ value < limit) :
    sign * (min n limit : Nat) = value ↔ sign * n = value := by
  rw [eq_comm, le_antisymm_iff, mul_min_limit_mem_iff hsign hvalue.1 hvalue.2, ← le_antisymm_iff,
    eq_comm]

/-! ### Numerals -/

/-- The text is made of digits of the radix, at least one, and they denote the number. -/
def Numeral (radix : Nat) (run : Text) (n : Nat) : Prop :=
  ∃ digits, digits ≠ [] ∧ List.Forall₂ (Writes radix) run digits ∧
    Nat.ofDigits radix digits.reverse = n

theorem Numeral.exists_cons (h : Numeral radix run n) :
    ∃ c u d, run = c :: u ∧ Writes radix c d := by
  obtain ⟨digits, hne, hrun, -⟩ := h
  cases hrun with
  | nil => exact absurd rfl hne
  | cons hc _ => exact ⟨_, _, _, rfl, hc⟩

/-- A decimal numeral is one digit or more, leading zeros included. -/
theorem exists_numeral_iff : (∃ n, Numeral 10 t n) ↔ t ≠ [] ∧ ∀ c ∈ t, c.isDigit = true := by
  constructor
  · rintro ⟨n, digits, hne, hrun, -⟩
    refine ⟨?_, ?_⟩
    · rintro rfl
      cases hrun
      exact hne rfl
    · have hboth := hrun.imp fun c d h => (⟨exists_writes_ten_iff.mp ⟨d, h⟩, h⟩ : _ ∧ _)
      exact (List.forall₂_and_left _ _).mp hboth |>.1
  · rintro ⟨hne, hdigits⟩
    obtain ⟨run, rest, ht, hrun, hrest⟩ := exists_run 10 t
    cases rest with
    | nil =>
      rw [List.append_nil] at ht
      rw [← ht] at hrun
      refine ⟨_, _, fun hnil => ?_, hrun, rfl⟩
      rw [hnil] at hrun
      cases hrun
      exact hne rfl
    | cons c rest =>
      obtain ⟨d, hd⟩ := exists_writes_ten_iff.mpr (hdigits c (by simp [ht]))
      exact absurd hd (hrest c rfl d)

/-- The digits of a numeral are read to its end. -/
theorem Numeral.ofDigits_eq (h : Numeral radix run n) :
    Nat.ofDigits radix (leadingDigits radix run).reverse = n := by
  obtain ⟨digits, -, hrun, rfl⟩ := h
  have hdigits := leadingDigits_append hrun (ends_nil radix)
  rw [List.append_nil] at hdigits
  rw [hdigits]

theorem Numeral.unique {n' : Nat} (h : Numeral radix run n) (h' : Numeral radix run n') :
    n = n' :=
  h.ofDigits_eq.symm.trans h'.ofDigits_eq

theorem Numeral.bounded_eq (h : Numeral radix run n) :
    bounded radix (leadingDigits radix run) = min n limit := by
  rw [bounded_eq_min, h.ofDigits_eq]

/-! ### Signs -/

/-- An optional sign, and the factor that it stands for. -/
inductive Sign : Text → Int → Prop
  | absent : Sign [] 1
  | plus : Sign ['+'] 1
  | minus : Sign ['-'] (-1)

theorem Sign.eq_or_eq (h : Sign mark sign) : sign = 1 ∨ sign = -1 := by
  cases h with
  | absent => exact Or.inl rfl
  | plus => exact Or.inl rfl
  | minus => exact Or.inr rfl

theorem Sign.of_mem (h : Sign mark sign) (hc : c ∈ mark) : c = '+' ∨ c = '-' := by
  cases h with
  | absent => cases hc
  | plus => exact Or.inl (List.mem_singleton.mp hc)
  | minus => exact Or.inr (List.mem_singleton.mp hc)

theorem takeSign_append (h : Sign mark sign) (ht : ∀ c ∈ t.head?, Text.isWord c = true) :
    (mark ++ t).takeSign = (decide (sign = -1), t) := by
  cases h with
  | absent =>
    cases t with
    | nil => rfl
    | cons c t =>
      have hc := ht c rfl
      have hminus : c ≠ '-' := by rintro rfl; cases hc
      have hplus : c ≠ '+' := by rintro rfl; cases hc
      rw [List.nil_append, Text.takeSign.eq_def]
      split <;> simp_all
  | plus => rfl
  | minus => rfl

theorem exists_sign (t : Text) : ∃ mark, t = mark ++ t.takeSign.2 ∧
    Sign mark (if t.takeSign.1 then -1 else 1) := by
  rw [Text.takeSign.eq_def]
  split
  · exact ⟨['-'], rfl, .minus⟩
  · exact ⟨['+'], rfl, .plus⟩
  · exact ⟨[], rfl, .absent⟩

/-! ### Lenient reading -/

/-- Blanks, a sign and a numeral. What stands behind it is ignored, but it goes on with no digit. -/
inductive Lenient (radix : Nat) : Text → Int → Nat → Prop
  | intro {blanks mark run rest : Text} {sign : Int} {n : Nat}
      (hblanks : ∀ c ∈ blanks, Text.isBlank c = true) (hmark : Sign mark sign)
      (hrun : Numeral radix run n) (hrest : Ends radix rest) :
      Lenient radix (blanks ++ (mark ++ (run ++ rest))) sign n

theorem trimStart_append {blanks : Text} (hblanks : ∀ c ∈ blanks, Text.isBlank c = true)
    (ht : ∀ c ∈ t.head?, Text.isBlank c = false) : (blanks ++ t).trimStart = t := by
  rw [Text.trimStart, List.dropWhile_append_of_pos hblanks]
  cases t with
  | nil => rfl
  | cons c t => exact List.dropWhile_cons_of_neg (by simp [ht c rfl])

/-- A sign is no blank. -/
theorem Sign.isBlank_head_eq_false (h : Sign mark sign)
    (ht : ∀ c ∈ t.head?, Text.isBlank c = false) :
    ∀ c ∈ (mark ++ t).head?, Text.isBlank c = false := by
  intro c hc
  cases h with
  | absent => exact ht c hc
  | plus =>
    cases hc
    decide
  | minus =>
    cases hc
    decide

/-- **The parts of a body** are what the three readers take off its front. -/
theorem lenient_iff : Lenient radix t sign n ↔
    leadingDigits radix t.trimStart.takeSign.2 ≠ [] ∧
      sign = (if t.trimStart.takeSign.1 then -1 else 1) ∧
      n = Nat.ofDigits radix (leadingDigits radix t.trimStart.takeSign.2).reverse := by
  constructor
  · rintro ⟨hblanks, hmark, hrun, hrest⟩
    obtain ⟨c, u, d, rfl, hc⟩ := hrun.exists_cons
    obtain ⟨digits, hne, hrun, rfl⟩ := hrun
    have hhead : ∀ v : Text, ∀ e ∈ (c :: u ++ v).head?, Text.isWord e = true := by
      intro v e he
      cases he
      exact hc.isWord
    rw [trimStart_append hblanks, takeSign_append hmark (hhead _),
      leadingDigits_append hrun hrest]
    · refine ⟨hne, ?_, rfl⟩
      cases hmark <;> rfl
    · exact hmark.isBlank_head_eq_false fun e he => Text.isBlank_eq_false (hhead _ e he)
  · rintro ⟨hne, rfl, rfl⟩
    obtain ⟨run, rest, hsplit, hrun, hrest⟩ := exists_run radix t.trimStart.takeSign.2
    obtain ⟨mark, hmark, hsign⟩ := exists_sign t.trimStart
    have hblanks : ∀ c ∈ t.takeWhile Text.isBlank, Text.isBlank c = true :=
      fun c hc => List.all_eq_true.mp List.all_takeWhile c hc
    have hparts : t.takeWhile Text.isBlank ++ (mark ++ (run ++ rest)) = t := by
      rw [← hsplit, ← hmark]
      exact List.takeWhile_append_dropWhile
    have h := Lenient.intro hblanks hsign ⟨_, hne, hrun, rfl⟩ hrest
    rwa [hparts] at h

theorem Lenient.unique {sign' : Int} {n' : Nat} (h : Lenient radix t sign n)
    (h' : Lenient radix t sign' n') : sign = sign' ∧ n = n' := by
  obtain ⟨-, rfl, rfl⟩ := lenient_iff.mp h
  obtain ⟨-, rfl, rfl⟩ := lenient_iff.mp h'
  exact ⟨rfl, rfl⟩

theorem Lenient.eq_or_eq (h : Lenient radix t sign n) : sign = 1 ∨ sign = -1 := by
  obtain ⟨-, hmark, -, -⟩ := h
  exact hmark.eq_or_eq

/-- A character that a literal may start with. -/
def Begins (c : Char) : Prop := Text.isBlank c = true ∨ (c = '+' ∨ c = '-') ∨ c.isDigit = true

instance (c : Char) : Decidable (Begins c) := inferInstanceAs (Decidable (_ ∨ _))

theorem not_begins_of_isAlpha (h : c.isAlpha = true) : ¬ Begins c := by
  rintro (hblank | (rfl | rfl) | hdigit)
  · cases h.symm.trans (Text.isAlpha_eq_false_of_isBlank hblank)
  · cases h
  · cases h
  · cases hdigit.symm.trans (Text.isDigit_eq_false_of_isAlpha h)

theorem Lenient.exists_cons (h : Lenient radix t sign n) (hradix : radix ≤ 10) :
    ∃ c u, t = c :: u ∧ Begins c := by
  obtain @⟨blanks, mark, run, rest, sign, n, hblanks, hmark, hrun, -⟩ := h
  obtain ⟨c, u, d, rfl, hc⟩ := hrun.exists_cons
  cases blanks with
  | cons b blanks => exact ⟨b, _, rfl, Or.inl (hblanks b (List.mem_cons_self ..))⟩
  | nil =>
    cases mark with
    | cons m mark => exact ⟨m, _, rfl, Or.inr (Or.inl (hmark.of_mem (List.mem_cons_self ..)))⟩
    | nil => exact ⟨c, _, rfl, Or.inr (Or.inr (hc.isDigit hradix))⟩

theorem readSigned_eq_some_iff : readSigned radix t = some value ↔
    ∃ sign n, Lenient radix t sign n ∧ value = sign * (min n limit : Nat) := by
  have hread : readSigned radix t = some value ↔
      leadingDigits radix t.trimStart.takeSign.2 ≠ [] ∧
        value = (if t.trimStart.takeSign.1 then -1 else 1) *
          (bounded radix (leadingDigits radix t.trimStart.takeSign.2) : Int) := by
    simp only [readSigned]
    split
    · rename_i hnil
      simp [hnil]
    · rename_i hne
      rw [Option.some.injEq, and_iff_right hne, ite_mul, neg_one_mul, one_mul]
      exact eq_comm
  rw [hread, bounded_eq_min]
  simp only [lenient_iff]
  constructor
  · rintro ⟨hne, rfl⟩
    exact ⟨_, _, ⟨hne, rfl, rfl⟩, rfl⟩
  · rintro ⟨_, _, ⟨hne, rfl, rfl⟩, rfl⟩
    exact ⟨hne, rfl⟩

/-! ### Marks -/

/-- The text starts with the mark of a radix. -/
def Prefixed (t : Text) : Prop := ∃ body, t = '0' :: 'x' :: body ∨ t = '0' :: 'o' :: body

/-- The radix that a text is marked with and the text without the mark. A mark at the end counts if
there is none in front. -/
inductive Marked : Text → Nat → Text → Prop
  | hexadecimal (body : Text) : Marked ('0' :: 'x' :: body) 16 body
  | octal (body : Text) : Marked ('0' :: 'o' :: body) 8 body
  | binary {body : Text} (h : ¬ Prefixed (body ++ ['b'])) : Marked (body ++ ['b']) 2 body
  | decimal {body : Text} (h : ¬ Prefixed (body ++ ['d'])) : Marked (body ++ ['d']) 10 body

theorem marked?_of_not_prefixed (h : ¬ Prefixed t) : marked? t =
    match t.getLast? with
    | some 'b' => some (2, t.dropLast)
    | some 'd' => some (10, t.dropLast)
    | _ => none := by
  rw [marked?.eq_def]
  split
  · exact absurd ⟨_, Or.inl rfl⟩ h
  · exact absurd ⟨_, Or.inr rfl⟩ h
  · rfl

theorem marked?_eq_some_iff : marked? t = some (radix, body) ↔ Marked t radix body := by
  constructor
  · intro h
    by_cases hprefix : Prefixed t
    · obtain ⟨u, rfl | rfl⟩ := hprefix
      · cases h
        exact .hexadecimal _
      · cases h
        exact .octal _
    · rw [marked?_of_not_prefixed hprefix] at h
      split at h
      · rename_i hlast
        cases h
        obtain ⟨u, rfl⟩ := List.getLast?_eq_some_iff.mp hlast
        rw [List.dropLast_concat]
        exact .binary hprefix
      · rename_i hlast
        cases h
        obtain ⟨u, rfl⟩ := List.getLast?_eq_some_iff.mp hlast
        rw [List.dropLast_concat]
        exact .decimal hprefix
      · cases h
  · intro h
    cases h with
    | hexadecimal => rfl
    | octal => rfl
    | binary h =>
      rw [marked?_of_not_prefixed h, List.getLast?_concat, List.dropLast_concat]
      rfl
    | decimal h =>
      rw [marked?_of_not_prefixed h, List.getLast?_concat, List.dropLast_concat]
      rfl

/-! ### Literals -/

/-- The sign and the number of a literal. A marked one is read leniently; a plain one is a sign and
a decimal numeral and nothing else. -/
inductive Denotes : Text → Int → Nat → Prop
  | marked {t body : Text} {radix : Nat} {sign : Int} {n : Nat} (hmark : Marked t radix body)
      (hbody : Lenient radix body sign n) : Denotes t sign n
  | plain {mark run : Text} {sign : Int} {n : Nat} (hmark : Sign mark sign)
      (hrun : Numeral 10 run n) : Denotes (mark ++ run) sign n

/-- A plain literal has no letters, and so no mark. -/
theorem marked?_plain (hmark : Sign mark sign) (hrun : Numeral 10 run n) :
    marked? (mark ++ run) = none := by
  obtain ⟨-, hdigits⟩ := exists_numeral_iff.mp ⟨n, hrun⟩
  have hletter : ∀ c ∈ mark ++ run, c ≠ 'x' ∧ c ≠ 'o' ∧ c ≠ 'b' ∧ c ≠ 'd' := by
    intro c hc
    have hplain : (c = '+' ∨ c = '-') ∨ c.isDigit = true :=
      (List.mem_append.mp hc).imp hmark.of_mem (hdigits c)
    refine ⟨?_, ?_, ?_, ?_⟩ <;> (rintro rfl; revert hplain; decide)
  rw [Option.eq_none_iff_forall_ne_some]
  rintro ⟨radix, body⟩ h
  rw [marked?_eq_some_iff] at h
  generalize mark ++ run = t at h hletter
  cases h with
  | hexadecimal => exact (hletter 'x' (by simp)).1 rfl
  | octal => exact (hletter 'o' (by simp)).2.1 rfl
  | binary => exact (hletter 'b' (by simp)).2.2.1 rfl
  | decimal => exact (hletter 'd' (by simp)).2.2.2 rfl

/-- A plain literal may be read leniently: it has neither blanks nor anything behind. -/
theorem lenient_of_plain (hmark : Sign mark sign) (hrun : Numeral 10 run n) :
    Lenient 10 (mark ++ run) sign n := by
  have h := Lenient.intro (List.forall_mem_nil _) hmark hrun (ends_nil 10)
  rwa [List.nil_append, List.append_nil] at h

theorem plain_iff : (∃ mark run, t = mark ++ run ∧ Sign mark sign ∧ Numeral 10 run n) ↔
    isPlain t = true ∧ Lenient 10 t sign n := by
  have hplain : isPlain t = true ↔ ∃ n, Numeral 10 t.takeSign.2 n := by
    rw [exists_numeral_iff, isPlain]
    simp
  rw [hplain]
  constructor
  · rintro ⟨mark, run, rfl, hmark, hrun⟩
    refine ⟨?_, lenient_of_plain hmark hrun⟩
    obtain ⟨c, u, d, rfl, hc⟩ := hrun.exists_cons
    have hhead : ∀ e ∈ (c :: u).head?, Text.isWord e = true := by
      intro e he
      cases he
      exact hc.isWord
    rw [takeSign_append hmark hhead]
    exact ⟨n, hrun⟩
  · rintro ⟨⟨m, hrun⟩, h⟩
    obtain ⟨mark, ht, hmark⟩ := exists_sign t
    have h' := lenient_of_plain hmark hrun
    rw [← ht] at h'
    obtain ⟨rfl, rfl⟩ := h.unique h'
    exact ⟨mark, _, ht, hmark, hrun⟩

theorem denotes_of_marked (h : Marked t radix body) :
    Denotes t sign n ↔ Lenient radix body sign n := by
  refine ⟨fun ht => ?_, .marked h⟩
  rw [← marked?_eq_some_iff] at h
  cases ht with
  | marked hmark hbody =>
    rw [← marked?_eq_some_iff, h] at hmark
    cases hmark
    exact hbody
  | plain hmark hrun =>
    rw [marked?_plain hmark hrun] at h
    cases h

theorem denotes_of_unmarked (h : marked? t = none) :
    Denotes t sign n ↔ isPlain t = true ∧ Lenient 10 t sign n := by
  rw [← plain_iff]
  constructor
  · intro ht
    cases ht with
    | marked hmark =>
      rw [← marked?_eq_some_iff, h] at hmark
      cases hmark
    | plain hmark hrun => exact ⟨_, _, rfl, hmark, hrun⟩
  · rintro ⟨mark, run, rfl, hmark, hrun⟩
    exact .plain hmark hrun

theorem Denotes.unique {sign' : Int} {n' : Nat} (h : Denotes t sign n)
    (h' : Denotes t sign' n') : sign = sign' ∧ n = n' := by
  cases hmarked : marked? t with
  | some x =>
    have hbody := marked?_eq_some_iff.mp hmarked
    exact ((denotes_of_marked hbody).mp h).unique ((denotes_of_marked hbody).mp h')
  | none =>
    obtain ⟨-, h⟩ := (denotes_of_unmarked hmarked).mp h
    obtain ⟨-, h'⟩ := (denotes_of_unmarked hmarked).mp h'
    exact h.unique h'

theorem Denotes.eq_or_eq (h : Denotes t sign n) : sign = 1 ∨ sign = -1 := by
  cases h with
  | marked _ hbody => exact hbody.eq_or_eq
  | plain hmark _ => exact hmark.eq_or_eq

/-- **A literal starts** with a blank, a sign or a digit, and with nothing else. -/
theorem Denotes.exists_cons (h : Denotes t sign n) : ∃ c u, t = c :: u ∧ Begins c := by
  cases h with
  | marked hmark hbody =>
    cases hmark with
    | hexadecimal => exact ⟨_, _, rfl, .inr (.inr (by decide))⟩
    | octal => exact ⟨_, _, rfl, .inr (.inr (by decide))⟩
    | binary =>
      obtain ⟨c, u, rfl, hc⟩ := hbody.exists_cons (by decide)
      exact ⟨c, _, rfl, hc⟩
    | decimal =>
      obtain ⟨c, u, rfl, hc⟩ := hbody.exists_cons (by decide)
      exact ⟨c, _, rfl, hc⟩
  | plain hmark hrun =>
    exact (lenient_of_plain hmark hrun).exists_cons (Nat.le_refl _)

/-- **The value of a literal** is its number up to the limit, with its sign. -/
theorem ofText_eq_ok_iff : ofText t = .ok value ↔
    ∃ sign n, Denotes t sign n ∧ value = sign * (min n limit : Nat) := by
  rw [ofText]
  cases hmarked : marked? t with
  | some x =>
    obtain ⟨radix, body⟩ := x
    simp only [denotes_of_marked (marked?_eq_some_iff.mp hmarked), ← readSigned_eq_some_iff]
    cases readSigned radix body <;> simp
  | none =>
    simp only [denotes_of_unmarked hmarked]
    by_cases hplain : isPlain t = true
    · simp only [hplain, if_true, true_and, ← readSigned_eq_some_iff]
      cases readSigned 10 t <;> simp
    · simp [hplain]

/-- **Whatever denotes no number** is refused, and the fault names the whole text. -/
theorem ofText_eq_error_iff {f : Fault} : ofText t = .error f ↔
    (∀ sign n, ¬ Denotes t sign n) ∧ f = .malformedNumber t := by
  have hok : (∀ sign n, ¬ Denotes t sign n) ↔ ∀ v, ofText t ≠ .ok v := by
    simp only [ne_eq, ofText_eq_ok_iff]
    constructor
    · rintro h v ⟨sign, n, hn, -⟩
      exact h sign n hn
    · intro h sign n hn
      exact h _ ⟨sign, n, hn, rfl⟩
  have hfault : ∀ g, ofText t = .error g → g = .malformedNumber t := by
    intro g h
    simp only [ofText] at h
    split at h
    · cases h
    · cases h
      rfl
  rw [hok]
  constructor
  · intro h
    refine ⟨fun v hv => ?_, hfault f h⟩
    cases h.symm.trans hv
  · rintro ⟨h, rfl⟩
    cases hresult : ofText t with
    | ok v => exact absurd hresult (h v)
    | error g => rw [hfault g hresult]

/-! ### Words -/

/-- The signed word that is nearest to an integer. -/
def saturate (v : Int) : Int64 :=
  Int64.ofInt (max Int64.minValue.toInt (min v Int64.maxValue.toInt))

/-- Digits read in a word. The product with the radix saturates, and so does the sum. -/
def inWord (radix : Nat) (digits : List Nat) : Int64 :=
  digits.foldl (fun (value : Int64) (d : Nat) =>
    saturate ((saturate (value.toInt * radix)).toInt + d)) 0

theorem toInt_saturate (v : Int) :
    (saturate v).toInt = max (-(limit : Int) - 1) (min v limit) := by
  have hmin : Int64.minValue.toInt = -(limit : Int) - 1 := by decide
  have hmax : Int64.maxValue.toInt = (limit : Int) := by decide
  rw [saturate, hmin, hmax, Int64.toInt_ofInt_of_le]
  · simp only [limit]
    omega
  · simp only [limit]
    omega

/-- Saturating after the product and after the sum comes to the same as bounding the value after
each digit. -/
theorem toInt_inWord (radix : Nat) (digits : List Nat) :
    (inWord radix digits).toInt = bounded radix digits := by
  induction digits using List.reverseRecOn with
  | nil => rfl
  | append_singleton digits d ih =>
    have hproduct : 0 ≤ (bounded radix digits : Int) * radix := by positivity
    rw [inWord, List.foldl_concat, ← inWord, toInt_saturate, toInt_saturate, ih, bounded_concat]
    push_cast
    omega

/-- The negation of a word that digits have been read into is exact: the one word that has no
negation is out of reach. -/
theorem toInt_neg_inWord (radix : Nat) (digits : List Nat) :
    (-inWord radix digits).toInt = -(bounded radix digits : Int) := by
  have hle := bounded_le_limit radix digits
  rw [Int64.toInt_neg, toInt_inWord, Int.bmod_eq_of_le] <;> simp only [limit] at hle <;> omega

/-- Blanks, an optional sign and digits, read in a word. -/
def readSignedInWord (radix : Nat) (t : Text) : Option Int64 :=
  let (negative, rest) := t.trimStart.takeSign
  match leadingDigits radix rest with
  | [] => none
  | digits => some (if negative then -inWord radix digits else inWord radix digits)

/-- **A word is wide enough** for what is read in it, and for the sign. -/
theorem map_toInt_readSignedInWord (radix : Nat) (t : Text) :
    (readSignedInWord radix t).map Int64.toInt = readSigned radix t := by
  simp only [readSignedInWord, readSigned]
  cases leadingDigits radix t.trimStart.takeSign.2 with
  | nil => rfl
  | cons d digits =>
    cases t.trimStart.takeSign.1 with
    | false => exact congrArg some (toInt_inWord radix _)
    | true => exact congrArg some (toInt_neg_inWord radix _)

/-- **No word overflows.** The product of a sign with a word that digits have been read into is
exact. -/
theorem toInt_mul_inWord (radix : Nat) (digits : List Nat) {s : Int64} (hs : s = 1 ∨ s = -1) :
    (s * inWord radix digits).toInt = s.toInt * bounded radix digits := by
  have hle := bounded_le_limit radix digits
  have hsign : s.toInt = 1 ∨ s.toInt = -1 := by
    rcases hs with rfl | rfl
    · exact Or.inl rfl
    · exact Or.inr rfl
  rw [Int64.toInt_mul, toInt_inWord, Int.bmod_eq_of_le]
  · rcases hsign with h | h <;> rw [h] <;> simp only [limit] at hle <;> omega
  · rcases hsign with h | h <;> rw [h] <;> simp only [limit] at hle <;> omega

end Number

end Octasm
