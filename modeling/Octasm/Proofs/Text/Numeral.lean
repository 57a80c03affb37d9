import Octasm.Proofs.Literal.Number
import Octasm.Text.Numeral

/-!
# Numerals as they are printed

Printed numerals are the same as those that are read: the digits of the number, the highest first.
What is added in print are capitals for the digits above nine and zeros in front, and neither
changes the number. `Number.Printed` describes such a numeral without saying how its digits are
found.

## Main definitions

* `Number.Printed`: a numeral in capitals, filled up with zeros to a width

## Main results

* `Number.numeral_toDigits`: the digits of a number are a numeral for it
* `Number.numeral_decimal`: decimal numerals are read as they are printed
* `Number.printed_leftpad`, `Number.printed_hexByte`, `Number.printed_decimal`: numerals in columns
-/

namespace Octasm

theorem Text.upper_upper (t : Text) : t.upper.upper = t.upper := by
  rw [upper, upper, List.map_map]
  exact List.map_congr_left fun c _ => Char.toUpper_toUpper_eq_toUpper c

namespace Number

variable {c : Char} {d n radix width : Nat} {run : Text}

/-! ### Digits -/

/-- One more digit at the end of a numeral. -/
theorem Numeral.concat (h : Numeral radix run n) (hc : Writes radix c d) :
    Numeral radix (run ++ [c]) (radix * n + d) := by
  obtain ⟨digits, -, hrun, rfl⟩ := h
  refine ⟨digits ++ [d], by simp, List.rel_append hrun (.cons hc .nil), ?_⟩
  rw [List.reverse_concat, Nat.ofDigits_cons, Nat.add_comm]

theorem writes_digitChar (hd : d < radix) (hradix : radix ≤ 16) : Writes radix d.digitChar d :=
  ⟨hd, by omega, Or.inl rfl⟩

theorem numeral_digitChar (hn : n < radix) (hradix : radix ≤ 16) :
    Numeral radix [n.digitChar] n :=
  ⟨[n], by simp, .cons (writes_digitChar hn hradix) .nil, Nat.ofDigits_singleton⟩

/-- **The digits of a number** are a numeral for it. -/
theorem numeral_toDigits (hone : 1 < radix) (hradix : radix ≤ 16) (n : Nat) :
    Numeral radix (Nat.toDigits radix n) n := by
  induction n using Nat.strongRecOn with
  | ind n ih =>
    rcases Nat.lt_or_ge n radix with hn | hn
    · rw [Nat.toDigits_of_lt_base hn]
      exact numeral_digitChar hn hradix
    · have hlt : n / radix < n := Nat.div_lt_self (by omega) hone
      have hdigit := writes_digitChar (Nat.mod_lt n (Nat.zero_lt_of_lt hone)) hradix
      have h := (ih (n / radix) hlt).concat hdigit
      rw [Nat.toDigits_of_base_le hone hn]
      rwa [Nat.div_add_mod] at h

/-- **A decimal numeral** is read as it is printed. -/
theorem numeral_decimal (n : Nat) : Numeral 10 (Text.decimal n) n :=
  numeral_toDigits (by decide) (by decide) n

theorem denotes_decimal (n : Nat) : Denotes (Text.decimal n) 1 n :=
  .plain .absent (numeral_decimal n)

/-- No digit but zero is written as zero. -/
theorem eq_zero_of_digitChar (hd : d < 16) (h : d.digitChar = '0') : d = 0 := by
  have hcode := congrArg Char.toNat h
  rw [toNat_digitChar d hd] at hcode
  change _ = 48 at hcode
  split at hcode <;> omega

/-- A number other than zero has no zero in front. -/
theorem head?_toDigits_ne (hone : 1 < radix) (hradix : radix ≤ 16) (hn : 0 < n) :
    (Nat.toDigits radix n).head? ≠ some '0' := by
  induction n using Nat.strongRecOn with
  | ind n ih =>
    rcases Nat.lt_or_ge n radix with hlt | hle
    · rw [Nat.toDigits_of_lt_base hlt]
      intro hzero
      have := eq_zero_of_digitChar (by omega) (Option.some.inj hzero)
      omega
    · have hquotient : 0 < n / radix := Nat.div_pos hle (by omega)
      rw [Nat.toDigits_of_base_le hone hle, List.head?_append_of_ne_nil _ Nat.toDigits_ne_nil]
      exact ih (n / radix) (Nat.div_lt_self hn hone) hquotient

/-! ### Capitals and zeros -/

theorem Writes.toUpper (h : Writes radix c d) : Writes radix c.toUpper d := by
  obtain ⟨hradix, hd, rfl | rfl⟩ := h
  · exact ⟨hradix, hd, Or.inr rfl⟩
  · exact ⟨hradix, hd, Or.inr (Char.toUpper_toUpper_eq_toUpper _)⟩

/-- In capitals a numeral denotes the same. -/
theorem Numeral.upper (h : Numeral radix run n) : Numeral radix run.upper n := by
  obtain ⟨digits, hne, hrun, hvalue⟩ := h
  exact ⟨digits, hne, List.forall₂_map_left_iff.mpr (hrun.imp fun _ _ hc => hc.toUpper), hvalue⟩

/-- Zeros in front change nothing. -/
theorem Numeral.replicate_append (h : Numeral radix run n) (k : Nat) :
    Numeral radix (List.replicate k '0' ++ run) n := by
  obtain ⟨c, u, e, -, he, -⟩ := h.exists_cons
  induction k with
  | zero => exact h
  | succ k ih =>
    obtain ⟨digits, -, hrun, hvalue⟩ := ih
    have hzero : Writes radix '0' 0 := ⟨Nat.zero_lt_of_lt he, by decide, Or.inl rfl⟩
    refine ⟨0 :: digits, by simp, .cons hzero hrun, ?_⟩
    rw [List.reverse_cons, Nat.ofDigits_append, Nat.ofDigits_singleton, Nat.mul_zero, Nat.add_zero,
      hvalue]

/-- The numeral of a number as it stands in a column: in capitals, with zeros in front up to a width
and no further. -/
structure Printed (radix columns : Nat) (t : Text) (n : Nat) : Prop where
  numeral : Numeral radix t n
  capitals : t.upper = t
  width : columns ≤ t.length
  zeros : columns < t.length → t.head? ≠ some '0'

/-- **Numerals in columns.** -/
theorem printed_leftpad (hone : 1 < radix) (hradix : radix ≤ 16) (hwidth : 0 < width) (n : Nat) :
    Printed radix width ((Text.upper (Nat.toDigits radix n)).leftpad width '0') n := by
  refine ⟨?_, ?_, ?_, fun hlong hzero => ?_⟩
  · exact (numeral_toDigits hone hradix n).upper.replicate_append _
  · simp only [List.leftpad, Text.upper_append, Text.upper_upper]
    rw [Text.upper, List.map_replicate]
    rfl
  · rw [List.length_leftpad]
    exact Nat.le_max_left ..
  · rw [List.length_leftpad, Text.length_upper] at hlong
    have hpad : (Text.upper (Nat.toDigits radix n)).leftpad width '0'
        = Text.upper (Nat.toDigits radix n) := by
      have hnone : width - (Text.upper (Nat.toDigits radix n)).length = 0 := by
        rw [Text.length_upper]
        omega
      simp only [List.leftpad, hnone, List.replicate_zero, List.nil_append]
    rw [hpad, Text.upper, List.head?_map] at hzero
    obtain ⟨c, hc, hupper⟩ := Option.map_eq_some_iff.mp hzero
    obtain rfl : c = '0' := Text.eq_of_toUpper_eq (by decide) hupper
    refine head?_toDigits_ne hone hradix (Nat.pos_of_ne_zero ?_) hc
    rintro rfl
    rw [Nat.toDigits_of_lt_base (by omega), List.length_singleton] at hlong
    omega

/-- A byte has a column of two digits. -/
theorem printed_hexByte (b : UInt8) : Printed 16 2 (Text.hexByte b) b.toNat := by
  have hb := b.toNat_lt
  have hhigh : Writes 16 (Text.hexDigit (b.toNat / 16)) (b.toNat / 16) :=
    (writes_digitChar (by omega) (by decide)).toUpper
  have hlow : Writes 16 (Text.hexDigit (b.toNat % 16)) (b.toNat % 16) :=
    (writes_digitChar (by omega) (by decide)).toUpper
  have hvalue : Nat.ofDigits 16 [b.toNat % 16, b.toNat / 16] = b.toNat := by
    rw [Nat.ofDigits_cons, Nat.ofDigits_singleton]
    exact Nat.mod_add_div b.toNat 16
  refine ⟨⟨_, List.cons_ne_nil _ _, .cons hhigh (.cons hlow .nil), hvalue⟩, ?_, Nat.le_refl _,
    fun hlong => absurd hlong (Nat.lt_irrefl 2)⟩
  exact Text.upper_upper [Nat.digitChar (b.toNat / 16), Nat.digitChar (b.toNat % 16)]

/-- A decimal numeral has no zeros in front. -/
theorem printed_decimal (n : Nat) : Printed 10 1 (Text.decimal n) n := by
  refine ⟨numeral_decimal n, ?_, List.length_pos_iff.mpr Nat.toDigits_ne_nil, fun hlong => ?_⟩
  · have hdigits : ∀ c ∈ Text.decimal n, c.toUpper = c := fun c hc =>
      Text.toUpper_of_isAlpha_eq_false <| Bool.eq_false_iff.mpr fun halpha => by
        cases (Text.isDigit_of_mem_decimal hc).symm.trans (Text.isDigit_eq_false_of_isAlpha halpha)
    rw [Text.upper, List.map_congr_left hdigits, List.map_id']
  · refine head?_toDigits_ne (by decide) (by decide) (Nat.pos_of_ne_zero ?_)
    rintro rfl
    cases Nat.lt_irrefl 1 hlong

end Number

end Octasm
