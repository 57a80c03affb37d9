import Octasm.Literal.Offset
import Octasm.Proofs.Literal.Number

/-!
# What an offset denotes

An offset is a register in either case, one sign that has to be there, and a decimal numeral of any
length. A register and a sign settle that the text is meant as an offset (`Opens`), and everything
behind them is then an offset or a fault; a text that does not open in this way is left alone.

A base is one letter or two, but it is determined by the text, because no register's name starts
another's. So the four answers exclude each other, and each of them is an equivalence.

The operand byte holds five bits of offset and three of base. Both halves are read back from it
(`Indirect.unpack_injective`), and so the byte says no less than the register and the offset.

## Main definitions

* `Offset.Opens`: a register and a sign, and what is behind them
* `Offset.Denotes`: the register, the sign and the number of an offset
* `Offset.Answers`: the four answers, each with the texts that it is given for

## Main results

* `Indirect.pack_eq_some_iff`: packing answers the byte that unpacks to what was packed
* `Offset.ofText_eq_iff`: every text has the answer that is given for it
* `Offset.ofText_answers`: the answers, and that bytes are equal only for equal offsets
-/

namespace Octasm

/-! ### The operand byte -/

namespace Indirect

variable {base : Register} {offset : Int} {b c : UInt8}

theorem unpack_injective (h : unpack b = unpack c) : b = c := by
  obtain ⟨hbase, hoffset⟩ := Prod.mk.inj h
  have hlow := congrArg UInt8.toNat hbase
  rw [UInt8.toNat_mod, UInt8.toNat_mod] at hlow
  have hb := b.toNat_lt
  have hc := c.toNat_lt
  -- both upper halves are below thirty-two, where wrapping around loses nothing
  have hhigh : (b.toNat / 8 : Int) % (32 : Nat) = (c.toNat / 8 : Int) % (32 : Nat) := by
    rw [← Int.bmod_emod, hoffset, Int.bmod_emod]
  rw [← UInt8.toNat_inj]
  change b.toNat % 8 = c.toNat % 8 at hlow
  omega

theorem unpack_bounds (b : UInt8) : -16 ≤ (unpack b).2 ∧ (unpack b).2 ≤ 15 := by
  have hlow := Int.le_bmod (x := b.toNat / 8) (m := 32) (by decide)
  have hhigh := Int.bmod_lt (x := b.toNat / 8) (m := 32) (by decide)
  simp only [unpack]
  omega

/-- **Packing** answers the byte that unpacks to what was packed, and no other. -/
theorem pack_eq_some_iff : pack base offset = some b ↔ unpack b = (base.index, offset) := by
  refine ⟨unpack_pack, fun h => ?_⟩
  have hbounds := unpack_bounds b
  rw [h] at hbounds
  obtain ⟨c, hc⟩ := Option.isSome_iff_exists.mp ((pack_isSome_iff base offset).mpr hbounds)
  rw [hc, unpack_injective ((unpack_pack hc).trans h.symm)]

end Indirect

/-! ### The base -/

theorem Register.sameName_name_iff {t : Text} {r : Register} :
    t.SameName r.name ↔ Register.ofText? t = some r := by
  have hname : r.name.upper = r.name := by cases r <;> decide
  rw [Register.ofText?_eq_some_iff, Text.SameName, hname]

namespace Offset

open Number

variable {b : UInt8} {k sign : Int} {n : Nat} {r : Register} {t u rest : Text}

/-- No register's name starts another's, so the base is taken whole whatever follows. -/
theorem base?_eq_some_iff :
    base? t = some (r, rest) ↔ ∃ base, t = base ++ rest ∧ base.SameName r.name := by
  simp only [Register.sameName_name_iff, Register.ofText?_eq_some_iff]
  constructor
  · intro h
    cases t with
    | nil => cases h
    | cons c t =>
      rw [base?.eq_def] at h
      simp only at h
      split at h
      case h_5 =>
        rename_i p u hc
        split at h
        · rename_i hp
          cases h
          refine ⟨[c, p], rfl, ?_⟩
          rw [Text.upper_cons, Text.upper_cons, hc, hp]
          rfl
        · cases h
      -- the other bases are one letter, and what is no base answers nothing
      all_goals cases h
      all_goals exact ⟨[c], rfl, congrArg (· :: []) ‹_›⟩
  · rintro ⟨base, rfl, h⟩
    cases r with
    | sp =>
      obtain ⟨c, u, rfl, hc, hu⟩ := List.map_eq_cons_iff.mp h
      obtain ⟨p, rfl, hp⟩ := List.map_eq_singleton_iff.mp hu
      simp [base?, hc, hp]
    | _ =>
      obtain ⟨c, rfl, hc⟩ := List.map_eq_singleton_iff.mp h
      simp [base?, hc]

/-! ### The opening -/

/-- A register in either case and a sign, with its factor, in front of the rest. -/
inductive Opens : Text → Register → Int → Text → Prop
  | plus {base : Text} {r : Register} (h : base.SameName r.name) (rest : Text) :
      Opens (base ++ '+' :: rest) r 1 rest
  | minus {base : Text} {r : Register} (h : base.SameName r.name) (rest : Text) :
      Opens (base ++ '-' :: rest) r (-1) rest

theorem Opens.eq_or_eq (h : Opens t r sign rest) : sign = 1 ∨ sign = -1 := by
  cases h with
  | plus => exact Or.inl rfl
  | minus => exact Or.inr rfl

/-- What the base leaves is the sign and the rest. -/
theorem Opens.exists_base?_eq (h : Opens t r sign rest) : ∃ c, base? t = some (r, c :: rest) ∧
    (c = '+' ∧ sign = 1 ∨ c = '-' ∧ sign = -1) := by
  cases h with
  | plus h => exact ⟨'+', base?_eq_some_iff.mpr ⟨_, rfl, h⟩, Or.inl ⟨rfl, rfl⟩⟩
  | minus h => exact ⟨'-', base?_eq_some_iff.mpr ⟨_, rfl, h⟩, Or.inr ⟨rfl, rfl⟩⟩

/-- The opening is determined by the text. -/
theorem Opens.unique {r' : Register} {sign' : Int} {rest' : Text} (h : Opens t r sign rest)
    (h' : Opens t r' sign' rest') : r = r' ∧ sign = sign' ∧ rest = rest' := by
  obtain ⟨c, hc, hsign⟩ := h.exists_base?_eq
  obtain ⟨c', hc', hsign'⟩ := h'.exists_base?_eq
  cases hc.symm.trans hc'
  refine ⟨rfl, ?_, rfl⟩
  rcases hsign with ⟨rfl, rfl⟩ | ⟨rfl, rfl⟩
  · rcases hsign' with ⟨-, rfl⟩ | ⟨h, -⟩
    · rfl
    · cases h
  · rcases hsign' with ⟨h, -⟩ | ⟨-, rfl⟩
    · cases h
    · rfl

theorem ofText_of_opens (h : Opens t r sign rest) : ofText t =
    match magnitude? rest with
    | some m => packed r (sign * m)
    | none => .error (.malformedNumber t) := by
  cases h with
  | @plus base r h rest =>
    have hbase : base? (base ++ '+' :: rest) = some (r, '+' :: rest) :=
      base?_eq_some_iff.mpr ⟨base, rfl, h⟩
    cases hm : magnitude? rest <;> simp only [ofText, hbase, hm, one_mul]
  | @minus base r h rest =>
    have hbase : base? (base ++ '-' :: rest) = some (r, '-' :: rest) :=
      base?_eq_some_iff.mpr ⟨base, rfl, h⟩
    cases hm : magnitude? rest <;> simp only [ofText, hbase, hm, neg_one_mul]

theorem ofText_of_not_opens (h : ∀ r sign rest, ¬ Opens t r sign rest) : ofText t = .ok none := by
  rw [ofText]
  split
  · rename_i hbase
    obtain ⟨base, rfl, hname⟩ := base?_eq_some_iff.mp hbase
    exact absurd (.plus hname _) (h _ _ _)
  · rename_i hbase
    obtain ⟨base, rfl, hname⟩ := base?_eq_some_iff.mp hbase
    exact absurd (.minus hname _) (h _ _ _)
  · rfl

/-! ### Offsets -/

theorem magnitude?_of_numeral (h : Numeral 10 t n) : magnitude? t = some (min n limit) := by
  have hdigits := exists_numeral_iff.mp ⟨n, h⟩
  rw [magnitude?, if_pos (by simpa using hdigits), h.bounded_eq]

theorem magnitude?_of_not_numeral (h : ∀ n, ¬ Numeral 10 t n) : magnitude? t = none := by
  have hdigits := mt exists_numeral_iff.mpr (not_exists.mpr h)
  rw [magnitude?, if_neg (by simpa using hdigits)]

/-- The register, the sign and the number of an offset. -/
def Denotes (t : Text) (r : Register) (sign : Int) (n : Nat) : Prop :=
  ∃ digits, Opens t r sign digits ∧ Numeral 10 digits n

theorem Denotes.eq_or_eq (h : Denotes t r sign n) : sign = 1 ∨ sign = -1 := by
  obtain ⟨_, hopens, -⟩ := h
  exact hopens.eq_or_eq

theorem Denotes.unique {r' : Register} {sign' : Int} {n' : Nat} (h : Denotes t r sign n)
    (h' : Denotes t r' sign' n') : r = r' ∧ sign = sign' ∧ n = n' := by
  obtain ⟨digits, hopens, hdigits⟩ := h
  obtain ⟨digits', hopens', hdigits'⟩ := h'
  obtain ⟨rfl, rfl, rfl⟩ := hopens.unique hopens'
  exact ⟨rfl, rfl, hdigits.unique hdigits'⟩

/-- A text that opens as an offset and does not go on as one. -/
def Breaks (t : Text) : Prop :=
  ∃ r sign rest, Opens t r sign rest ∧ ∀ n, ¬ Numeral 10 rest n

/-- A text is an offset, or it breaks off, or it does not open as one. -/
theorem denotes_or_breaks_or (t : Text) : (∃ r sign n, Denotes t r sign n) ∨ Breaks t ∨
    ∀ r sign rest, ¬ Opens t r sign rest := by
  by_cases hopens : ∃ r sign rest, Opens t r sign rest
  · obtain ⟨r, sign, rest, h⟩ := hopens
    by_cases hrest : ∃ n, Numeral 10 rest n
    · obtain ⟨n, hn⟩ := hrest
      exact Or.inl ⟨r, sign, n, rest, h, hn⟩
    · exact Or.inr (Or.inl ⟨r, sign, rest, h, not_exists.mp hrest⟩)
  · exact Or.inr (Or.inr fun r sign rest h => hopens ⟨r, sign, rest, h⟩)

theorem breaks_iff : Breaks t ↔ ∃ r sign rest, Opens t r sign rest ∧
    (rest = [] ∨ ∃ c ∈ rest, c.isDigit = false) := by
  simp only [Breaks, ← not_exists, exists_numeral_iff]
  simp [or_iff_not_imp_left]

theorem ofText_of_denotes (h : Denotes t r sign n) :
    ofText t = packed r (sign * (min n limit : Nat)) := by
  obtain ⟨digits, hopens, hdigits⟩ := h
  rw [ofText_of_opens hopens, magnitude?_of_numeral hdigits]

theorem ofText_of_breaks (h : Breaks t) : ofText t = .error (.malformedNumber t) := by
  obtain ⟨r, sign, rest, hopens, hrest⟩ := h
  rw [ofText_of_opens hopens, magnitude?_of_not_numeral hrest]

theorem packed_of_unpack (h : Indirect.unpack b = (r.index, k)) : packed r k = .ok (some b) := by
  rw [packed, Indirect.pack_eq_some_iff.mpr h]

theorem packed_of_outOfRange (h : ¬ (-16 ≤ k ∧ k ≤ 15)) :
    packed r k = .error (.offsetOutOfRange k) := by
  rw [packed, Indirect.pack, if_neg h]

/-! ### Answers -/

/-- What is answered for a text: the byte of an offset that fits, the bounded value of one that does
not, the text itself if it breaks off, and nothing for any other text. -/
inductive Answers (t : Text) : Except Fault (Option UInt8) → Prop
  | fits {r : Register} {sign : Int} {n : Nat} {b : UInt8} (h : Denotes t r sign n)
      (hfits : -16 ≤ sign * n ∧ sign * n ≤ 15) (hbyte : Indirect.unpack b = (r.index, sign * n)) :
      Answers t (.ok (some b))
  | outOfRange {r : Register} {sign : Int} {n : Nat} (h : Denotes t r sign n)
      (hrange : ¬ (-16 ≤ sign * n ∧ sign * n ≤ 15)) :
      Answers t (.error (.offsetOutOfRange (sign * (min n limit : Nat))))
  | breaks {r : Register} {sign : Int} {rest : Text} (h : Opens t r sign rest)
      (hrest : rest = [] ∨ ∃ c ∈ rest, c.isDigit = false) : Answers t (.error (.malformedNumber t))
  | other (h : ∀ r sign rest, ¬ Opens t r sign rest) : Answers t (.ok none)

theorem Answers.ofText_eq {x : Except Fault (Option UInt8)} (h : Answers t x) : ofText t = x := by
  cases h with
  | @fits r sign n b h hfits hbyte =>
    have hvalue : sign * (min n limit : Nat) = sign * n :=
      (mul_min_limit_eq_iff h.eq_or_eq (by simp only [limit]; omega)).mpr rfl
    rw [ofText_of_denotes h, hvalue, packed_of_unpack hbyte]
  | outOfRange h hrange =>
    have hbounded := mt (mul_min_limit_mem_iff h.eq_or_eq (by decide) (by decide)).mp hrange
    rw [ofText_of_denotes h, packed_of_outOfRange hbounded]
  | breaks h hrest => exact ofText_of_breaks (breaks_iff.mpr ⟨_, _, _, h, hrest⟩)
  | other h => exact ofText_of_not_opens h

theorem exists_answers (t : Text) : ∃ x, Answers t x := by
  rcases denotes_or_breaks_or t with ⟨r, sign, n, h⟩ | h | h
  · by_cases hfits : -16 ≤ sign * (n : Int) ∧ sign * n ≤ 15
    · obtain ⟨b, hb⟩ := Option.isSome_iff_exists.mp ((Indirect.pack_isSome_iff r _).mpr hfits)
      exact ⟨_, .fits h hfits (Indirect.unpack_pack hb)⟩
    · exact ⟨_, .outOfRange h hfits⟩
  · obtain ⟨r, sign, rest, hopens, hrest⟩ := breaks_iff.mp h
    exact ⟨_, .breaks hopens hrest⟩
  · exact ⟨_, .other h⟩

/-- **Offsets** are answered as `Answers` says, and in no other way. -/
theorem ofText_eq_iff {x : Except Fault (Option UInt8)} : ofText t = x ↔ Answers t x := by
  refine ⟨fun h => ?_, Answers.ofText_eq⟩
  obtain ⟨y, hy⟩ := exists_answers t
  rwa [← h, hy.ofText_eq]

/-- **A register, a sign and digits.** Every text is answered as `Answers` says, and two offsets
have one byte if and only if they name one register and one value. -/
theorem ofText_answers (t u : Text) : (∀ x, ofText t = x ↔ Answers t x) ∧
    ∀ b c, ofText t = .ok (some b) → ofText u = .ok (some c) →
      (b = c ↔ ∃ r sign n sign' n', Denotes t r sign n ∧ Denotes u r sign' n' ∧
        sign * (n : Int) = sign' * n') := by
  refine ⟨fun x => ofText_eq_iff, fun b c hb hc => ?_⟩
  obtain @⟨r, sign, n, _, h, -, hbyte⟩ := ofText_eq_iff.mp hb
  obtain @⟨r', sign', n', _, h', -, hbyte'⟩ := ofText_eq_iff.mp hc
  constructor
  · rintro rfl
    obtain ⟨hr, hvalue⟩ := Prod.mk.inj (hbyte.symm.trans hbyte')
    obtain rfl := Register.index_injective hr
    exact ⟨r, sign, n, sign', n', h, h', hvalue⟩
  · rintro ⟨s, sign₁, n₁, sign₂, n₂, h₁, h₂, hvalue⟩
    obtain ⟨rfl, rfl, rfl⟩ := h.unique h₁
    obtain ⟨rfl, rfl, rfl⟩ := h'.unique h₂
    rw [← hvalue, ← hbyte] at hbyte'
    exact (Indirect.unpack_injective hbyte').symm

example : ofText "sp-016".toList = .ok (some 132) ∧
    ofText "A+16".toList = .error (.offsetOutOfRange 16) ∧
    ofText "b+1x".toList = .error (.malformedNumber "b+1x".toList) ∧
    ofText "AB+1".toList = .ok none := by
  decide

end Offset

end Octasm
