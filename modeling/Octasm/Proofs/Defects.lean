import Octasm.Proofs.Placement

/-!
# What can be wrong with a source text

A line can be wrong in several ways at once, and a text can have wrong lines and open references at
the same time. One fault is reported. This file says which, without a state: the lines are looked
at before the references, the first of several is reported, and of several defects of one line the
one that is looked for first.

## Main definitions

* `Line.Defect`, `Line.Reports`: the defects of a line, and the one that it is reported for
* `Source.Defective`: a line of a text has a defect
* `Source.Unresolved`: a reference has no byte
* `Source.Verdict`: what is reported for a text, if anything is

## Main results

* `Source.Verdict.unique`: there is no second verdict
-/

namespace Octasm

/-! ### Lines -/

/-- The defects of a line, numbered in the order in which they are looked for; `above` are the lines
in front of it. -/
inductive Line.Defect (above : List Text) (t : Text) : Nat → Fault → Prop
  /-- The line is no statement. -/
  | malformed {f : Fault} (hs : Statement.ofText t = .error f) : Defect above t 0 .malformedLine
  /-- A line above declares the label, perhaps in another case. -/
  | duplicate {s : Statement} {name : Text} {j : Nat} (hs : Statement.ofText t = .ok s)
      (hl : s.label = some name) (hj : Source.Declares above j name) :
      Defect above t 1 (.duplicateLabel name)
  /-- The label is the name of a register. -/
  | reserved {s : Statement} {name : Text} {r : Register} (hs : Statement.ofText t = .ok s)
      (hl : s.label = some name) (hr : Register.ofText? name = some r) :
      Defect above t 2 (.reservedLabel name.upper)
  /-- There is no such mnemonic. -/
  | unknown {s : Statement} {spelling : Text} (hs : Statement.ofText t = .ok s)
      (hm : s.mnemonic = some spelling) (hu : Mnemonic.ofText? spelling = none) :
      Defect above t 3 (.unknownMnemonic spelling)
  /-- The operands do not fit the mnemonic. -/
  | rejected {s : Statement} {spelling : Text} {m : Mnemonic} {f : Fault}
      (hs : Statement.ofText t = .ok s) (hm : s.mnemonic = some spelling)
      (hk : Mnemonic.ofText? spelling = some m)
      (he : Instruction.encode m spelling s.first s.second = .error f) : Defect above t 4 f

namespace Line

variable {above : List Text} {t : Text} {k : Nat} {f g : Fault}

/-- A line is reported for the first of its defects. -/
def Reports (above : List Text) (t : Text) (f : Fault) : Prop :=
  ∃ k, Defect above t k f ∧ ∀ l g, Defect above t l g → k ≤ l

/-- The defects of a line that is a statement. -/
theorem Defect.of_ofText {s : Statement} (hs : Statement.ofText t = .ok s)
    (h : Defect above t k f) :
    (k = 1 ∧ ∃ name j, s.label = some name ∧ Source.Declares above j name) ∨
      (k = 2 ∧ ∃ name r, s.label = some name ∧ Register.ofText? name = some r) ∨
      (k = 3 ∧ ∃ spelling, s.mnemonic = some spelling ∧ Mnemonic.ofText? spelling = none) ∨
      (k = 4 ∧ s.emission = .error f) := by
  cases h with
  | malformed hs' => cases hs.symm.trans hs'
  | duplicate hs' hl hj =>
    obtain rfl := Except.ok.inj (hs.symm.trans hs')
    exact Or.inl ⟨rfl, _, _, hl, hj⟩
  | reserved hs' hl hr =>
    obtain rfl := Except.ok.inj (hs.symm.trans hs')
    exact Or.inr (Or.inl ⟨rfl, _, _, hl, hr⟩)
  | unknown hs' hm hu =>
    obtain rfl := Except.ok.inj (hs.symm.trans hs')
    exact Or.inr (Or.inr (Or.inl ⟨rfl, _, hm, hu⟩))
  | rejected hs' hm hk he =>
    obtain rfl := Except.ok.inj (hs.symm.trans hs')
    refine Or.inr (Or.inr (Or.inr ⟨rfl, ?_⟩))
    exact Statement.emission_eq_error_iff.mpr ⟨_, hm, Or.inr ⟨_, hk, he⟩⟩

/-- A line has one defect of each number at most. -/
theorem Defect.unique (hf : Defect above t k f) (hg : Defect above t k g) : f = g := by
  cases hf with
  | malformed hs => cases hg; rfl
  | duplicate hs hl hj =>
    cases hg with
    | duplicate hs' hl' hj' =>
      obtain rfl := Except.ok.inj (hs.symm.trans hs')
      rw [Option.some.inj (hl.symm.trans hl')]
  | reserved hs hl hr =>
    cases hg with
    | reserved hs' hl' hr' =>
      obtain rfl := Except.ok.inj (hs.symm.trans hs')
      rw [Option.some.inj (hl.symm.trans hl')]
  | unknown hs hm hu =>
    cases hg with
    | unknown hs' hm' hu' =>
      obtain rfl := Except.ok.inj (hs.symm.trans hs')
      rw [Option.some.inj (hm.symm.trans hm')]
  | rejected hs hm hk he =>
    cases hg with
    | rejected hs' hm' hk' he' =>
      obtain rfl := Except.ok.inj (hs.symm.trans hs')
      obtain rfl := Option.some.inj (hm.symm.trans hm')
      obtain rfl := Option.some.inj (hk.symm.trans hk')
      exact Except.error.inj (he.symm.trans he')

theorem Reports.unique (hf : Reports above t f) (hg : Reports above t g) : f = g := by
  obtain ⟨k, hk, hkmin⟩ := hf
  obtain ⟨l, hl, hlmin⟩ := hg
  obtain rfl := Nat.le_antisymm (hkmin l g hl) (hlmin k f hk)
  exact hk.unique hl

end Line

/-! ### Source texts -/

namespace Source

variable {ls ls' : List Text} {i j : Nat} {name : Text} {s : Slot} {e f : Fault}

/-- A line has a defect. -/
def Defective (ls : List Text) (i : Nat) : Prop :=
  ∃ t k f, ls[i]? = some t ∧ Line.Defect (ls.take i) t k f

/-- What is below a line does not matter for its defects. -/
theorem defective_append_iff (hi : i < ls.length) : Defective (ls ++ ls') i ↔ Defective ls i := by
  rw [Defective, Defective, List.getElem?_append_left hi,
    List.take_append_of_le_length (Nat.le_of_lt hi)]

theorem declares_take_iff (hij : i < j) : Declares (ls.take j) i name ↔ Declares ls i name := by
  rw [Declares, Declares, List.getElem?_take_of_lt hij]

/-- The faults of a reference: no line declares its label, or one does at an address that is out of
reach. -/
inductive Unresolved (ls : List Text) : Slot → Fault → Prop
  | undefined {name : Text} (h : ∀ j, ¬ Declares ls j name) :
      Unresolved ls (.label name) (.undefinedLabel name)
  | far {name : Text} {j : Nat} (h : Declares ls j name) (hfar : 255 < offset ls j) :
      Unresolved ls (.label name) (.labelOutOfRange name (offset ls j))

/-- **What is reported for a source text.** -/
inductive Verdict (ls : List Text) : Option AssemblyFault → Prop
  /-- The first line with a defect is reported. -/
  | line {i : Nat} {t : Text} {f : Fault} (ht : ls[i]? = some t)
      (hf : Line.Reports (ls.take i) t f) (hfirst : ∀ j < i, ¬ Defective ls j) :
      Verdict ls (some (.line i f))
  /-- If no line has a defect, the first reference without a byte is reported. -/
  | link {k : Nat} {s : Slot} {f : Fault} (hlines : ∀ i, ¬ Defective ls i)
      (hs : (ls.flatMap Line.slots)[k]? = some s) (hf : Unresolved ls s f)
      (hfirst : ∀ l < k, ∀ s g, (ls.flatMap Line.slots)[l]? = some s → ¬ Unresolved ls s g) :
      Verdict ls (some (.link f))
  /-- If every reference has a byte as well, nothing is reported. -/
  | nothing (hlines : ∀ i, ¬ Defective ls i)
      (hcode : ∀ s ∈ ls.flatMap Line.slots, ∀ f, ¬ Unresolved ls s f) : Verdict ls none

/-- A label that is declared twice makes the later line defective. -/
theorem not_lt_of_declares (h : ∀ i, ¬ Defective ls i) (hi : Declares ls i name)
    (hj : Declares ls j name) : ¬ i < j := by
  intro hij
  obtain ⟨t, l, ht, hl, hname⟩ := hj
  refine h j ?_
  rw [Line.label?] at hl
  split at hl
  · rename_i s hs
    obtain ⟨u, m, hu, hm, hsame⟩ := (declares_take_iff hij).mpr hi
    exact ⟨t, 1, _, ht, .duplicate hs hl ⟨u, m, hu, hm, hsame.trans hname.symm⟩⟩
  · cases hl

/-- A reference has one fault at most. -/
theorem Unresolved.unique (h : ∀ i, ¬ Defective ls i) (he : Unresolved ls s e)
    (hf : Unresolved ls s f) : e = f := by
  cases he with
  | undefined hnone =>
    cases hf with
    | undefined => rfl
    | far hj => exact absurd hj (hnone _)
  | far hi =>
    cases hf with
    | undefined hnone => exact absurd hi (hnone _)
    | far hj =>
      have hij := Nat.le_antisymm (Nat.le_of_not_lt (not_lt_of_declares h hj hi))
        (Nat.le_of_not_lt (not_lt_of_declares h hi hj))
      rw [hij]

theorem Defective.of_reports {t : Text} (ht : ls[i]? = some t)
    (hf : Line.Reports (ls.take i) t f) : Defective ls i := by
  obtain ⟨k, hk, -⟩ := hf
  exact ⟨t, k, f, ht, hk⟩

/-- **There is no second verdict.** -/
theorem Verdict.unique {x y : Option AssemblyFault} (hx : Verdict ls x) (hy : Verdict ls y) :
    x = y := by
  cases hx with
  | @line i t f ht hf hfirst =>
    have hi := Defective.of_reports ht hf
    cases hy with
    | @line j u g hu hg hfirst' =>
      have hj := Defective.of_reports hu hg
      obtain rfl : i = j := Nat.le_antisymm (Nat.le_of_not_lt fun hlt => hfirst j hlt hj)
        (Nat.le_of_not_lt fun hlt => hfirst' i hlt hi)
      obtain rfl := Option.some.inj (ht.symm.trans hu)
      rw [hf.unique hg]
    | link hlines => exact absurd hi (hlines i)
    | nothing hlines => exact absurd hi (hlines i)
  | @link k s f hlines hs hf hfirst =>
    cases hy with
    | line ht hg => exact absurd (Defective.of_reports ht hg) (hlines _)
    | @link l r g _ hr hg hfirst' =>
      obtain rfl : k = l := Nat.le_antisymm (Nat.le_of_not_lt fun hlt => hfirst l hlt r g hr hg)
        (Nat.le_of_not_lt fun hlt => hfirst' k hlt s f hs hf)
      obtain rfl := Option.some.inj (hs.symm.trans hr)
      rw [hf.unique hlines hg]
    | nothing _ hcode => exact absurd hf (hcode s (List.mem_of_getElem? hs) f)
  | nothing hlines hcode =>
    cases hy with
    | line ht hg => exact absurd (Defective.of_reports ht hg) (hlines _)
    | link _ hs hf => exact absurd hf (hcode _ (List.mem_of_getElem? hs) _)
    | nothing => rfl

end Source

end Octasm
