import Octasm.Proofs.Case.Operand
import Octasm.Proofs.Literal.Offset

/-!
# Readings that exclude each other

Between brackets a text may be a register, a label, an offset or a number, and the classifier tries
these in that order. Only the first try decides anything. A register's name is a label's name too,
but apart from this no text has two readings: a literal starts with a blank, a sign or a digit
(`Number.Denotes.exists_cons`) and a name or a base with a dot or a letter; and an offset has a sign
in it, which no name has.

It follows that the four tests may be made in any order in which registers come before labels. What
fails in one of them may still succeed in a later one, so here a fault passes the text on, and the
order of the classifier is the special case in which this never matters.

## Main definitions

* `Operand.Reading`: the four readings, and what each makes of a text
* `Operand.RegisterFirst`: no label is looked for before a register

## Main results

* `Number.not_denotes_of_isName`, `Offset.not_opens_of_isName`, `Offset.Opens.not_denotes`: no text
  has two readings
* `Operand.inBrackets_eq_ok_iff`: the readings, in the order of the classifier
* `Operand.readings_disjoint`: the same readings in any order
-/

namespace Octasm

/-! ### First characters -/

namespace Number

variable {c : Char} {n : Nat} {sign : Int} {t : Text}

/-- A literal starts with nothing that a name starts with. -/
theorem not_begins_of_isNameHead (h : Text.isNameHead c = true) : ¬ Begins c := by
  simp only [Text.isNameHead, Bool.or_eq_true, beq_iff_eq] at h
  rcases h with rfl | h
  · decide
  · exact not_begins_of_isAlpha h

theorem not_denotes_of_isNameHead (h : Text.isNameHead c = true) : ¬ Denotes (c :: t) sign n := by
  intro hn
  obtain ⟨e, u, he, hbegins⟩ := hn.exists_cons
  cases he
  exact not_begins_of_isNameHead h hbegins

/-- **No label is a number.** -/
theorem not_denotes_of_isName (h : t.isName = true) : ¬ Denotes t sign n := by
  obtain ⟨c, u, rfl, hc, -⟩ := Text.isName_iff.mp h
  exact not_denotes_of_isNameHead hc

end Number

/-- **A register's name** is shaped like a label. -/
theorem Register.isName_of_ofText? {t : Text} {r : Register} (h : ofText? t = some r) :
    t.isName = true := by
  rw [Text.isName_congr (sameName_name_iff.mpr h)]
  cases r <;> decide

theorem Register.ofText?_eq_none_of_not_isName {t : Text} (h : ¬ t.isName = true) :
    ofText? t = none := by
  rw [Option.eq_none_iff_forall_ne_some]
  exact fun r hr => h (isName_of_ofText? hr)

namespace Offset

variable {n : Nat} {sign sign' : Int} {r : Register} {t rest : Text}

/-- An offset starts as a name does, and a sign follows. -/
theorem Opens.exists_cons (h : Opens t r sign rest) :
    ∃ c u, t = c :: u ∧ Text.isNameHead c = true ∧ ('+' ∈ u ∨ '-' ∈ u) := by
  have hbase : ∀ {base : Text}, base.SameName r.name →
      ∃ c u, base = c :: u ∧ Text.isNameHead c = true := by
    intro base hname
    have hisName := Register.isName_of_ofText? (Register.sameName_name_iff.mp hname)
    obtain ⟨c, u, hcu, hc, -⟩ := Text.isName_iff.mp hisName
    exact ⟨c, u, hcu, hc⟩
  cases h with
  | plus hname =>
    obtain ⟨c, u, rfl, hc⟩ := hbase hname
    exact ⟨c, _, rfl, hc, Or.inl (by simp)⟩
  | minus hname =>
    obtain ⟨c, u, rfl, hc⟩ := hbase hname
    exact ⟨c, _, rfl, hc, Or.inr (by simp)⟩

/-- **No label opens as an offset**, because there is no sign in it. -/
theorem not_opens_of_isName (h : t.isName = true) : ¬ Opens t r sign rest := by
  intro hopens
  obtain ⟨c, u, rfl, -, hsign⟩ := hopens.exists_cons
  obtain ⟨_, _, heq, -, hword⟩ := Text.isName_iff.mp h
  cases heq
  rcases hsign with hsign | hsign
  · cases hword _ hsign
  · cases hword _ hsign

/-- **Nothing that opens as an offset is a number.** -/
theorem Opens.not_denotes (h : Opens t r sign rest) : ¬ Number.Denotes t sign' n := by
  obtain ⟨c, u, rfl, hc, -⟩ := h.exists_cons
  exact Number.not_denotes_of_isNameHead hc

/-- Whatever is answered for a text other than nothing, the text has opened as an offset. -/
theorem exists_opens_of_ne (h : ofText t ≠ .ok none) : ∃ r sign rest, Opens t r sign rest := by
  by_contra hnone
  exact h (ofText_of_not_opens fun r sign rest hopens => hnone ⟨r, sign, rest, hopens⟩)

end Offset

/-! ### Readings -/

namespace Operand

variable {op : Operand} {t : Text}

/-- The readings of a text between brackets. -/
inductive Reading
  | register | label | offset | number
  deriving DecidableEq

namespace Reading

variable {x y : Reading} {p q : Operand}

/-- What a reading makes of a text. A fault is no operand. -/
def of? (t : Text) : Reading → Option Operand
  | register => (Register.ofText? t).map fun r => .indirect r.index
  | label => if t.isName then some (.address (.label t)) else none
  | offset => (Offset.ofText t).toOption.join.map .indirect
  | number => (numberByte .address t).toOption.map fun b => .address (.byte b)

/-- The shape of the texts that have a reading. -/
def Fits (t : Text) : Reading → Prop
  | register => t.isName = true
  | label => t.isName = true
  | offset => ∃ r sign rest, Offset.Opens t r sign rest
  | number => ∃ sign n, Number.Denotes t sign n

theorem of?_offset_eq_some_iff :
    of? t offset = some op ↔ ∃ b, Offset.ofText t = .ok (some b) ∧ op = .indirect b := by
  rw [of?]
  rcases Offset.ofText t with f | _ | b <;> simp [Except.toOption, eq_comm]

theorem of?_number_eq_some_iff :
    of? t number = some op ↔ ∃ b, numberByte .address t = .ok b ∧ op = .address (.byte b) := by
  rw [of?]
  cases numberByte .address t <;> simp [Except.toOption, eq_comm]

theorem fits_of_of? (h : of? t x = some p) : Fits t x := by
  cases x with
  | register =>
    obtain ⟨r, hr, -⟩ := Option.map_eq_some_iff.mp h
    exact Register.isName_of_ofText? hr
  | label =>
    rw [of?] at h
    split at h
    · assumption
    · cases h
  | offset =>
    obtain ⟨b, hb, -⟩ := of?_offset_eq_some_iff.mp h
    exact Offset.exists_opens_of_ne (by simp [hb])
  | number =>
    obtain ⟨b, hb, -⟩ := of?_number_eq_some_iff.mp h
    obtain ⟨v, hv, -⟩ := Fallible.bind_eq_ok_iff.mp hb
    obtain ⟨sign, n, hn, -⟩ := Number.ofText_eq_ok_iff.mp hv
    exact ⟨sign, n, hn⟩

/-- A name fits no other reading than those of names. -/
theorem Fits.of_isName (h : Fits t x) (hname : t.isName = true) : x = .register ∨ x = .label := by
  cases x with
  | register => exact Or.inl rfl
  | label => exact Or.inr rfl
  | offset =>
    obtain ⟨r, sign, rest, hopens⟩ := h
    exact absurd hopens (Offset.not_opens_of_isName hname)
  | number =>
    obtain ⟨sign, n, hn⟩ := h
    exact absurd hn (Number.not_denotes_of_isName hname)

theorem Fits.of_not_isName (h : Fits t x) (hname : ¬ t.isName = true) :
    x = .offset ∨ x = .number := by
  cases x with
  | register => exact absurd h hname
  | label => exact absurd h hname
  | offset => exact Or.inl rfl
  | number => exact Or.inr rfl

theorem not_fits_offset_and_number : ¬ (Fits t offset ∧ Fits t number) := by
  rintro ⟨⟨r, sign, rest, hopens⟩, sign', n, hn⟩
  exact hopens.not_denotes hn

/-- **Two readings of one text** are one reading, or one is a register and the other a label. -/
theorem eq_or_of_of? (hx : of? t x = some p) (hy : of? t y = some q) :
    x = y ∨ (x = .register ∧ y = .label) ∨ x = .label ∧ y = .register := by
  have hx := fits_of_of? hx
  have hy := fits_of_of? hy
  by_cases hname : t.isName = true
  · rcases hx.of_isName hname with rfl | rfl <;> rcases hy.of_isName hname with rfl | rfl
    · exact Or.inl rfl
    · exact Or.inr (Or.inl ⟨rfl, rfl⟩)
    · exact Or.inr (Or.inr ⟨rfl, rfl⟩)
    · exact Or.inl rfl
  · rcases hx.of_not_isName hname with rfl | rfl <;> rcases hy.of_not_isName hname with rfl | rfl
    · exact Or.inl rfl
    · exact absurd ⟨hx, hy⟩ not_fits_offset_and_number
    · exact absurd ⟨hy, hx⟩ not_fits_offset_and_number
    · exact Or.inl rfl

end Reading

/-- What is no name is an offset or a number. -/
theorem inBrackets_of_not_isName (h : ¬ t.isName = true) :
    inBrackets t = Offset.ofText t >>= fun
      | some packed => .ok (.indirect packed)
      | none => numberByte .address t >>= fun b => .ok (.address (.byte b)) := by
  unfold inBrackets
  split
  · rename_i hr
    cases hr.symm.trans (Register.ofText?_eq_none_of_not_isName h)
  · exact if_neg h

theorem inBrackets_of_denotes {sign : Int} {n : Nat} (h : Number.Denotes t sign n) :
    inBrackets t = numberByte .address t >>= fun b => .ok (.address (.byte b)) := by
  rw [inBrackets_of_not_isName fun hname => Number.not_denotes_of_isName hname h,
    Offset.ofText_of_not_opens fun _ _ _ hopens => hopens.not_denotes h]
  rfl

/-- **Between brackets** stands an operand if one of the readings succeeds; a register is no label.
-/
theorem inBrackets_eq_ok_iff : inBrackets t = .ok op ↔
    ∃ x : Reading, x.of? t = some op ∧ (x = .label → Reading.of? t .register = none) := by
  constructor
  · intro h
    rw [inBrackets] at h
    split at h
    · rename_i r hr
      cases h
      exact ⟨.register, Option.map_eq_some_iff.mpr ⟨r, hr, rfl⟩, fun h => by cases h⟩
    · rename_i hr
      split at h
      · rename_i hname
        cases h
        exact ⟨.label, if_pos hname, fun _ => Option.map_eq_none_iff.mpr hr⟩
      · obtain ⟨x, hx, h⟩ := Fallible.bind_eq_ok_iff.mp h
        cases x with
        | some b =>
          cases h
          exact ⟨.offset, Reading.of?_offset_eq_some_iff.mpr ⟨b, hx, rfl⟩, fun h => by cases h⟩
        | none =>
          obtain ⟨b, hb, h⟩ := Fallible.bind_eq_ok_iff.mp h
          cases h
          exact ⟨.number, Reading.of?_number_eq_some_iff.mpr ⟨b, hb, rfl⟩, fun h => by cases h⟩
  · rintro ⟨x, hx, hfirst⟩
    have hfits := Reading.fits_of_of? hx
    cases x with
    | register =>
      obtain ⟨r, hr, rfl⟩ := Option.map_eq_some_iff.mp hx
      rw [inBrackets, hr]
    | label =>
      have hname : t.isName = true := hfits
      rw [Reading.of?, if_pos hname] at hx
      rw [inBrackets, Option.map_eq_none_iff.mp (hfirst rfl), if_pos hname, ← Option.some.inj hx]
    | offset =>
      obtain ⟨r, sign, rest, hopens⟩ := hfits
      obtain ⟨b, hb, rfl⟩ := Reading.of?_offset_eq_some_iff.mp hx
      rw [inBrackets_of_not_isName fun h => Offset.not_opens_of_isName h hopens, hb]
      rfl
    | number =>
      obtain ⟨sign, n, hn⟩ := hfits
      obtain ⟨b, hb, rfl⟩ := Reading.of?_number_eq_some_iff.mp hx
      rw [inBrackets_of_denotes hn, hb]
      rfl

/-! ### The order of the readings -/

/-- No label is looked for before a register. -/
def RegisterFirst (order : List Reading) : Prop :=
  order.Pairwise fun x y => ¬ (x = .label ∧ y = .register)

instance (order : List Reading) : Decidable (RegisterFirst order) :=
  inferInstanceAs (Decidable (order.Pairwise _))

/-- The operand of the first reading that succeeds. -/
def firstReading (order : List Reading) (t : Text) : Option Operand :=
  order.findSome? (Reading.of? t)

/-- All orders that look for registers before labels find what the classifier finds. -/
theorem firstReading_eq_some_iff {order : List Reading} (hall : ∀ x, x ∈ order)
    (hfirst : RegisterFirst order) :
    firstReading order t = some op ↔ inBrackets t = .ok op := by
  rw [firstReading, List.findSome?_eq_some_iff, inBrackets_eq_ok_iff]
  constructor
  · rintro ⟨before, x, after, rfl, hx, hbefore⟩
    refine ⟨x, hx, ?_⟩
    rintro rfl
    -- registers have been looked for, and not behind the label
    have hafter := (List.pairwise_cons.mp (List.pairwise_append.mp hfirst).2.1).1
    rcases List.mem_append.mp (hall .register) with h | h
    · exact hbefore _ h
    · rcases List.mem_cons.mp h with h | h
      · cases h
      · exact absurd ⟨rfl, rfl⟩ (hafter _ h)
  · rintro ⟨x, hx, hregister⟩
    obtain ⟨before, after, rfl, hnot⟩ := List.eq_append_cons_of_mem (hall x)
    refine ⟨before, x, after, rfl, hx, fun y hy => ?_⟩
    by_contra hsome
    obtain ⟨p, hp⟩ := Option.ne_none_iff_exists'.mp hsome
    rcases Reading.eq_or_of_of? hp hx with rfl | ⟨rfl, rfl⟩ | ⟨rfl, rfl⟩
    · exact hnot hy
    · exact hsome (hregister rfl)
    · have hcross := (List.pairwise_append.mp hfirst).2.2
      exact hcross _ hy _ (List.mem_cons_self ..) ⟨rfl, rfl⟩

/-- **The readings exclude each other**, but for registers and labels. A register's name is shaped
like a label, a label is neither a number nor an offset, and what opens as an offset is nothing
else. Therefore every order of the tests between brackets in which registers come before labels has
the same results. -/
theorem readings_disjoint (t : Text) :
    (∀ r, Register.ofText? t = some r → t.isName = true) ∧
    (t.isName = true → (∃ f, Number.ofText t = .error f) ∧ Offset.ofText t = .ok none) ∧
    ((∃ b, Offset.ofText t = .ok (some b)) ∨ (∃ f, Offset.ofText t = .error f) →
      Register.ofText? t = none ∧ t.isName = false ∧ ∃ f, Number.ofText t = .error f) ∧
    ∀ order : List Reading, (∀ x, x ∈ order) → RegisterFirst order → ∀ op,
      firstReading order t = some op ↔ inBrackets t = .ok op := by
  refine ⟨fun r => Register.isName_of_ofText?, fun hname => ⟨?_, ?_⟩, fun hoffset => ?_,
    fun order hall hfirst op => firstReading_eq_some_iff hall hfirst⟩
  · exact ⟨_, Number.ofText_eq_error_iff.mpr
      ⟨fun _ _ => Number.not_denotes_of_isName hname, rfl⟩⟩
  · exact Offset.ofText_of_not_opens fun _ _ _ => Offset.not_opens_of_isName hname
  · have hne : Offset.ofText t ≠ .ok none := by
      rcases hoffset with ⟨b, hb⟩ | ⟨f, hf⟩
      · simp [hb]
      · simp [hf]
    obtain ⟨r, sign, rest, hopens⟩ := Offset.exists_opens_of_ne hne
    have hname : ¬ t.isName = true := fun h => Offset.not_opens_of_isName h hopens
    exact ⟨Register.ofText?_eq_none_of_not_isName hname, Bool.eq_false_iff.mpr hname, _,
      Number.ofText_eq_error_iff.mpr ⟨fun _ _ => hopens.not_denotes, rfl⟩⟩

/-- Once registers have been looked for, the three other tests may be made in any order. -/
example : ∀ order ∈ [Reading.label, .offset, .number].permutations',
    RegisterFirst (.register :: order) := by
  decide

end Operand

end Octasm
