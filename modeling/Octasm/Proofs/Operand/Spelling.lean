import Octasm.Proofs.Operand.Token
import Octasm.Proofs.Text.Numeral

/-!
# Operands and their spellings

Not every operand is said by a token: a label has to be one that can be declared, and the base of an
operand byte has to be a register, of which there are five for three bits. These two conditions are
the only ones. An operand that meets them has a token, and its spelling is one.

A spelling is a token of the plainest kind, a name, a decimal numeral or characters between quotes,
and none of them is mistaken for another. Quotes and line feeds may stand among the characters,
because only the first and the last character of a token are its delimiters.

## Main definitions

* `Operand.WellFormed`: a label that can be declared, a base that is a register
* `Operand.spelling`: the canonical token of an operand

## Main results

* `Operand.says_spelling`: what a spelling says
* `Operand.wellFormed_iff`: the operands that tokens have, and their spellings
-/

namespace Octasm

/-- The register with an index in three bits, if the index is that of a register. -/
theorem Register.exists_index_eq {i : UInt8} (h : i ≤ 4) : ∃ r : Register, r.index = i := by
  have hi : i = 0 ∨ i = 1 ∨ i = 2 ∨ i = 3 ∨ i = 4 := by
    simp only [← UInt8.toNat_inj]
    change i.toNat ≤ 4 at h
    change i.toNat = 0 ∨ i.toNat = 1 ∨ i.toNat = 2 ∨ i.toNat = 3 ∨ i.toNat = 4
    omega
  rcases hi with rfl | rfl | rfl | rfl | rfl
  · exact ⟨.a, rfl⟩
  · exact ⟨.b, rfl⟩
  · exact ⟨.c, rfl⟩
  · exact ⟨.d, rfl⟩
  · exact ⟨.sp, rfl⟩

theorem Register.index_le (r : Register) : r.index ≤ 4 := by
  cases r <;> decide

/-! ### Well-formed operands -/

/-- A label that a byte waits for is one that can be declared. -/
def Slot.WellFormed : Slot → Prop
  | byte _ => True
  | label name => name.Declarable

namespace Operand

variable {op : Operand} {token : Text}

/-- Labels can be declared, and the base of an operand byte is a register. -/
def WellFormed : Operand → Prop
  | register _ => True
  | address s => s.WellFormed
  | indirect packed => packed % 8 ≤ 4
  | number s => s.WellFormed
  | string _ => True

theorem Says.wellFormed (h : Says token op) : op.WellFormed := by
  cases h with
  | register => trivial
  | label h => exact h
  | number => trivial
  | character => trivial
  | string => trivial
  | @base t r =>
    change r.index % 8 ≤ 4
    cases r <;> decide
  | @offset t r sign n b h hb =>
    have hbase : b % 8 = r.index := congrArg Prod.fst hb
    change b % 8 ≤ 4
    rw [hbase]
    exact r.index_le
  | location h => exact h
  | address => trivial

/-! ### Spellings -/

/-- The offset part of an operand byte, always with a sign. -/
def offsetSpelling : Int → Text
  | .ofNat n => '+' :: Text.decimal n
  | .negSucc n => '-' :: Text.decimal (n + 1)

/-- A byte in decimal, or the label. -/
def slotSpelling : Slot → Text
  | .byte b => Text.decimal b.toNat
  | .label name => name

/-- The spelling of the register whose index is the base of an operand byte. -/
def baseSpelling (i : UInt8) : Text := ((Register.ofIndex? i).map Register.name).getD []

/-- The canonical token of an operand. -/
def spelling : Operand → Text
  | register r => r.name
  | address s => '[' :: slotSpelling s ++ [']']
  | indirect p =>
    let (base, offset) := Indirect.unpack p
    '[' :: baseSpelling base ++ offsetSpelling offset ++ [']']
  | number s => slotSpelling s
  | string bytes => '"' :: bytes.map (fun b => Char.ofNat b.toNat) ++ ['"']

/-- The sign of an offset is always written, also in front of zero. -/
theorem exists_denotes_offsetSpelling (r : Register) (k : Int) :
    ∃ sign n, Offset.Denotes (r.name ++ offsetSpelling k) r sign n ∧ sign * (n : Int) = k := by
  cases k with
  | ofNat n =>
    exact ⟨1, n, ⟨_, .plus rfl _, Number.numeral_decimal n⟩, one_mul _⟩
  | negSucc n =>
    refine ⟨-1, n + 1, ⟨_, .minus rfl _, Number.numeral_decimal (n + 1)⟩, ?_⟩
    rw [neg_one_mul]
    rfl

theorem spelling_indirect {b : UInt8} {r : Register} {k : Int}
    (h : Indirect.unpack b = (r.index, k)) :
    (indirect b).spelling = '[' :: (r.name ++ offsetSpelling k) ++ [']'] := by
  simp only [spelling, h, baseSpelling, Register.ofIndex?_index, Option.map_some, Option.getD_some,
    List.cons_append]

/-- **A spelling** says the operand that it is made from. -/
theorem says_spelling (h : op.WellFormed) : Says op.spelling op := by
  cases op with
  | register r => exact .register rfl
  | address s =>
    cases s with
    | byte b => exact .address (Number.denotes_decimal _) (one_mul _)
    | label name => exact .location h
  | indirect b =>
    obtain ⟨r, hr⟩ := Register.exists_index_eq h
    have hb : Indirect.unpack b = (r.index, (Indirect.unpack b).2) := Prod.ext hr.symm rfl
    obtain ⟨sign, n, hn, hk⟩ := exists_denotes_offsetSpelling r (Indirect.unpack b).2
    rw [spelling_indirect hb]
    exact .offset hn (by rw [hk, ← hb])
  | number s =>
    cases s with
    | byte b => exact .number (Number.denotes_decimal _) (one_mul _)
    | label name => exact .label h
  | string bytes =>
    refine .string (List.forall₂_map_left_iff.mpr (List.forall₂_same.mpr fun b _ => ?_))
    have hb := b.toNat_lt
    rw [Char.toNat_ofNat, if_pos (Or.inl (by omega))]

/-- **Tokens and operands.** An operand is that of some token if and only if it is well formed, and
if and only if it is read back from its own spelling. -/
theorem wellFormed_iff (op : Operand) :
    (op.WellFormed ↔ ∃ token, ofText token = .ok op) ∧
    (op.WellFormed ↔ ofText op.spelling = .ok op) := by
  have hsound : ∀ token, ofText token = .ok op → op.WellFormed :=
    fun token h => (ofText_eq_ok_iff.mp h).wellFormed
  have hcomplete : op.WellFormed → ofText op.spelling = .ok op :=
    fun h => ofText_eq_ok_iff.mpr (says_spelling h)
  exact ⟨⟨fun h => ⟨_, hcomplete h⟩, fun ⟨token, h⟩ => hsound token h⟩, hcomplete, hsound _⟩

/-- Quotes and line feeds between quotes are characters. -/
example : spelling (.string [34, 10, 34]) = ['"', '"', '\n', '"', '"'] ∧
    ofText ['"', '"', '\n', '"', '"'] = .ok (.string [34, 10, 34]) := by
  decide

end Operand

end Octasm
