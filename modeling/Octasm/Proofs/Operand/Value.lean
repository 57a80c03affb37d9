import Octasm.Proofs.Operand.Token

/-!
# The values of number literals

What is known about one number literal, gathered in one place: which texts are literals, what they
denote, and that nothing is lost on the way from the digits to the byte. The number of a literal is
bounded while it is read, which is harmless in both places where literals are used. Nothing that is
compared with it, a byte or an offset, comes near the limit; and the limit is that of the words in
which the reading is done, so that no word wraps around.

## Main definitions

* `Number.Exact`: how a text is read as a number

## Main results

* `Operand.ofText_eq_byte_iff`, `Operand.bracketed_eq_byte_iff`: the tokens that are bytes
* `Number.ofText_exact`: every text is read exactly
-/

namespace Octasm

namespace Operand

variable {b : UInt8} {t : Text}

/-- **A token is a byte** if its exact number is, or its character. -/
theorem ofText_eq_byte_iff : ofText t = .ok (.number (.byte b)) ↔
    (∃ sign n, Number.Denotes t sign n ∧ sign * (n : Int) = b.toNat) ∨
      ∃ c, t = ['\'', c, '\''] ∧ c.toNat = b.toNat := by
  rw [ofText_eq_ok_iff]
  constructor
  · intro h
    cases h with
    | number h hb => exact Or.inl ⟨_, _, h, hb⟩
    | character hb => exact Or.inr ⟨_, rfl, hb⟩
  · rintro (⟨sign, n, h, hb⟩ | ⟨c, rfl, hb⟩)
    · exact .number h hb
    · exact .character hb

/-- **A token in brackets is a byte** if the exact number between them is. -/
theorem bracketed_eq_byte_iff : ofText ('[' :: t ++ [']']) = .ok (.address (.byte b)) ↔
    ∃ sign n, Number.Denotes t sign n ∧ sign * (n : Int) = b.toNat := by
  rw [ofText_eq_ok_iff]
  constructor
  · intro h
    generalize htoken : '[' :: t ++ [']'] = token at h
    cases h with
    | address h hb =>
      obtain rfl := List.append_cancel_right (List.cons.inj htoken).2
      exact ⟨_, _, h, hb⟩
  · rintro ⟨sign, n, h, hb⟩
    exact .address h hb

end Operand

namespace Number

variable {t : Text}

/-- How a text is read as a number, and what becomes of the number. -/
structure Exact (t : Text) : Prop where
  /-- The mark of the radix comes first, and a marked body is read leniently. -/
  marked {radix : Nat} {body : Text} (h : Marked t radix body) (sign : Int) (n : Nat) :
    Denotes t sign n ↔ Lenient radix body sign n
  /-- Without a mark, a sign and digits have to be everything. -/
  unmarked (h : ∀ radix body, ¬ Marked t radix body) (sign : Int) (n : Nat) :
    Denotes t sign n ↔ ∃ mark run, t = mark ++ run ∧ Sign mark sign ∧ Numeral 10 run n
  unique {sign sign' : Int} {n n' : Nat} (h : Denotes t sign n) (h' : Denotes t sign' n') :
    sign = sign' ∧ n = n'
  /-- The value is the exact number up to the limit, with its sign. -/
  value (v : Int) : ofText t = .ok v ↔
    ∃ sign n, Denotes t sign n ∧ v = sign * (min n (2 ^ 63 - 1) : Nat)
  /-- What denotes no number is refused, with the whole text. -/
  refused (f : Fault) : ofText t = .error f ↔
    (∀ sign n, ¬ Denotes t sign n) ∧ f = .malformedNumber t
  bounds {v : Int} (h : ofText t = .ok v) : -(2 ^ 63 - 1) ≤ v ∧ v ≤ 2 ^ 63 - 1
  /-- A body may be read in a word: neither its digits nor the negation wrap around. -/
  word (radix : Nat) : (readSignedInWord radix t).map Int64.toInt = readSigned radix t
  /-- So may an offset: the product with its sign does not wrap around either. -/
  offset {m : Nat} (h : Offset.magnitude? t = some m) {s : Int64} (hs : s = 1 ∨ s = -1) :
    (s * inWord 10 (leadingDigits 10 t)).toInt = s.toInt * m
  /-- A token is a byte if its exact number is one; the other bytes are characters. -/
  number (b : UInt8) : Operand.ofText t = .ok (.number (.byte b)) ↔
    (∃ sign n, Denotes t sign n ∧ sign * (n : Int) = b.toNat) ∨
      ∃ c, t = ['\'', c, '\''] ∧ c.toNat = b.toNat
  /-- Between brackets there are numbers only. -/
  address (b : UInt8) : Operand.ofText ('[' :: t ++ [']']) = .ok (.address (.byte b)) ↔
    ∃ sign n, Denotes t sign n ∧ sign * (n : Int) = b.toNat
  /-- A number that is not a byte is refused in both places. -/
  outOfRange {sign : Int} {n : Nat} (h : Denotes t sign n)
      (hrange : ¬ (0 ≤ sign * (n : Int) ∧ sign * (n : Int) ≤ 255)) :
    Operand.ofText t = .error (.notAByte .number) ∧
      Operand.ofText ('[' :: t ++ [']']) = .error (.notAByte .address)

theorem bounds_of_ofText {v : Int} (h : ofText t = .ok v) : -(limit : Int) ≤ v ∧ v ≤ limit := by
  obtain ⟨sign, n, hn, rfl⟩ := ofText_eq_ok_iff.mp h
  rcases hn.eq_or_eq with rfl | rfl <;> omega

/-- **Every text is read exactly**, whatever its length, up to the limit and never beyond it. -/
theorem ofText_exact (t : Text) : Exact t where
  marked h _ _ := denotes_of_marked h
  unmarked h sign n := by
    have hmarked : marked? t = none := by
      rw [Option.eq_none_iff_forall_ne_some]
      exact fun x hx => h x.1 x.2 (marked?_eq_some_iff.mp hx)
    rw [denotes_of_unmarked hmarked, plain_iff]
  unique h h' := h.unique h'
  value _ := ofText_eq_ok_iff
  refused _ := ofText_eq_error_iff
  bounds h := bounds_of_ofText h
  word radix := map_toInt_readSignedInWord radix t
  offset h _ hs := by
    rw [Offset.magnitude?] at h
    split at h
    · cases h
      exact toInt_mul_inWord 10 _ hs
    · cases h
  number _ := Operand.ofText_eq_byte_iff
  address _ := Operand.bracketed_eq_byte_iff
  outOfRange h hrange := by
    rw [Operand.ofText_of_denotes h, Operand.plain_of_denotes h, Operand.ofText_bracketed,
      Operand.inBrackets_of_denotes h, Operand.numberByte_of_outOfRange h hrange,
      Operand.numberByte_of_outOfRange h hrange]
    exact ⟨rfl, rfl⟩

/-- A prefix counts before an ending, and what follows the digits is ignored. -/
example : ofText "0x1b".toList = .ok 27 ∧ ofText "12ab".toList = .ok 1 ∧
    ofText "-99999999999999999999".toList = .ok (-9223372036854775807) ∧
    Operand.ofText "256".toList = .error (.notAByte .number) := by
  decide

end Number

end Octasm
