import Octasm.Assembly
import Octasm.Proofs.Fallible
import Octasm.Proofs.Instruction.Opcode
import Octasm.Proofs.Labels

/-!
# One line

What a line asks for does not depend on the lines around it: a label to bind and bytes to add. The
state of an assembly enters only when the label is declared. So everything that adding a line can
do is one of four outcomes, and `Assembly.Added` lists them; no later proof unfolds
`Assembly.addLine`.

## Main definitions

* `Statement.Asks`: the instruction of a statement
* `Line.label?`, `Line.mnemonic?`, `Line.emission`, `Line.slots`: what a line asks for
* `Line.Accepted`: it asks for something that can be done
* `Assembly.Added`: the outcomes of adding a line

## Main results

* `Statement.eq_scan_of_ofText`: the statement on a line
* `Statement.emission_eq_ok_iff`, `Statement.emission_eq_error_iff`: what a statement emits
* `Line.slots_ne_nil`: a line with an instruction adds a byte
* `Assembly.declare_eq_ok_iff`, `Assembly.declare_eq_error_iff`: binding a label
* `Assembly.added_addLine`, `Assembly.Added.addLine_eq`: adding a line has one of the four outcomes,
  and no other
-/

namespace Octasm

/-! ### Statements -/

namespace Statement

/-- A statement asks for an instruction: its mnemonic is a spelling of the instruction's, and its
tokens are the operands. -/
def Asks (s : Statement) (i : Instruction) : Prop :=
  ∃ spelling, s.mnemonic = some spelling ∧ Mnemonic.ofText? spelling = some i.mnemonic ∧
    Instruction.classify i.mnemonic.arity spelling.upper s.first s.second = .ok i.operands

variable {s : Statement} {e : Emission}

/-- A statement emits nothing, or the bytes of the instruction that it asks for. -/
theorem emission_eq_ok_iff :
    s.emission = .ok e ↔ (s.mnemonic = none ∧ e = .nothing) ∨
      ∃ i slots, s.Asks i ∧ i.slots? = some slots ∧ e = ⟨slots, !i.mnemonic.isDirective⟩ := by
  rw [emission]
  constructor
  · intro h
    split at h
    · exact Or.inl ⟨‹_›, (Except.ok.inj h).symm⟩
    · rename_i spelling hs
      split at h
      · cases h
      · rename_i m hm
        obtain ⟨slots, henc, he⟩ := Fallible.bind_eq_ok_iff.mp h
        obtain ⟨ops, hops, hsl⟩ := Fallible.bind_eq_ok_iff.mp henc
        split at hsl
        · rename_i slots' hslots
          cases hsl
          exact Or.inr ⟨⟨m, ops⟩, slots, ⟨spelling, hs, hm, hops⟩, hslots,
            (Except.ok.inj he).symm⟩
        · cases hsl
  · rintro (⟨hs, rfl⟩ | ⟨i, slots, ⟨spelling, hs, hm, hops⟩, hslots, rfl⟩)
    · rw [hs]
    · have henc : Instruction.encode i.mnemonic spelling s.first s.second = .ok slots := by
        refine Fallible.bind_eq_ok_iff.mpr ⟨i.operands, hops, ?_⟩
        rw [hslots]
      rw [hs]
      simp only [hm, henc]
      rfl

/-- A statement is refused if there is no such mnemonic, and else if the instruction is. -/
theorem emission_eq_error_iff {f : Fault} :
    s.emission = .error f ↔ ∃ spelling, s.mnemonic = some spelling ∧
      ((Mnemonic.ofText? spelling = none ∧ f = .unknownMnemonic spelling) ∨
        ∃ m, Mnemonic.ofText? spelling = some m ∧
          Instruction.encode m spelling s.first s.second = .error f) := by
  rw [emission]
  cases hs : s.mnemonic with
  | none => simp
  | some spelling =>
    cases hm : Mnemonic.ofText? spelling with
    | none => simp [hm, eq_comm]
    | some m => simp [hm, Fallible.bind_eq_error_iff]

/-- The statement on a line has the parts at its front. -/
theorem eq_scan_of_ofText {t : Text} (h : ofText t = .ok s) : s = scan t := by
  simp only [ofText] at h
  split at h
  · cases h
  · exact (Except.ok.inj h).symm

/-- A line with a label or a mnemonic is a statement. -/
theorem ofText_of_isEmpty_eq_false {t : Text} (h : (scan t).isEmpty = false) :
    ofText t = .ok (scan t) := by
  simp only [ofText, h, Bool.false_and]
  rfl

/-- There is one way in which a line is no statement. -/
theorem eq_malformedLine_of_ofText {t : Text} {f : Fault} (h : ofText t = .error f) :
    f = .malformedLine := by
  simp only [ofText] at h
  split at h
  · exact (Except.error.inj h).symm
  · cases h

/-- A statement asks for one instruction at most. -/
theorem Asks.unique {i j : Instruction} (hi : s.Asks i) (hj : s.Asks j) : i = j := by
  obtain ⟨spelling, hs, hm, hops⟩ := hi
  obtain ⟨spelling', hs', hm', hops'⟩ := hj
  obtain rfl := Option.some.inj (hs.symm.trans hs')
  have hmnemonic := Option.some.inj (hm.symm.trans hm')
  rw [← hmnemonic] at hops'
  exact Instruction.ext hmnemonic (Except.ok.inj (hops.symm.trans hops'))

/-- What a statement emits are the bytes of the instruction that it asks for. -/
theorem Asks.slots?_eq_some {i : Instruction} (hi : s.Asks i) (h : s.emission = .ok e) :
    i.slots? = some e.slots := by
  rcases emission_eq_ok_iff.mp h with ⟨hnone, -⟩ | ⟨j, slots, hj, hslots, rfl⟩
  · obtain ⟨spelling, hs, -⟩ := hi
    rw [hnone] at hs
    cases hs
  · rw [hi.unique hj]
    exact hslots

end Statement

/-! ### Lines by themselves -/

namespace Line

/-- The label of a line. -/
def label? (t : Text) : Option Text :=
  match Statement.ofText t with
  | .ok s => s.label
  | .error _ => none

/-- The emission of a line; a line that is refused emits nothing. -/
def emission (t : Text) : Emission :=
  match Statement.ofText t with
  | .ok s =>
    match s.emission with
    | .ok e => e
    | .error _ => .nothing
  | .error _ => .nothing

/-- The bytes of a line, with its label references open. -/
def slots (t : Text) : List Slot := (emission t).slots

/-- The line is a statement with an emission. -/
def Accepted (t : Text) : Prop := ∃ s e, Statement.ofText t = .ok s ∧ s.emission = .ok e

/-- Is there an instruction on the line? -/
def isInstruction (t : Text) : Bool := (emission t).isInstruction

/-- The mnemonic of a line. -/
def mnemonic? (t : Text) : Option Mnemonic :=
  match Statement.ofText t with
  | .ok s => s.mnemonic.bind Mnemonic.ofText?
  | .error _ => none

variable {t : Text} {s : Statement} {e : Emission}

theorem label?_of_ofText (h : Statement.ofText t = .ok s) : label? t = s.label := by
  rw [label?, h]

theorem emission_of_ofText (h : Statement.ofText t = .ok s) (he : s.emission = .ok e) :
    emission t = e := by
  simp only [emission, h, he]

theorem mnemonic?_of_ofText (h : Statement.ofText t = .ok s) :
    mnemonic? t = s.mnemonic.bind Mnemonic.ofText? := by
  rw [mnemonic?, h]

/-- The lines with an instruction are those with a mnemonic other than `DB`. -/
theorem isInstruction_eq (h : Accepted t) :
    isInstruction t = (mnemonic? t).any fun m => m != .db := by
  obtain ⟨s, e, hs, he⟩ := h
  rw [isInstruction, emission_of_ofText hs he, mnemonic?_of_ofText hs]
  rcases Statement.emission_eq_ok_iff.mp he with
    ⟨hm, rfl⟩ | ⟨i, slots, ⟨spelling, hm, hi, -⟩, -, rfl⟩
  · rw [hm]
    rfl
  · rw [hm, Option.bind_some, hi]
    rfl

/-- A line with an instruction is accepted; it asks for the instruction and adds its bytes. -/
theorem exists_asks (h : isInstruction t = true) :
    ∃ s i, Statement.ofText t = .ok s ∧ s.Asks i ∧ i.mnemonic ≠ .db ∧
      i.slots? = some (slots t) := by
  obtain ⟨s, e, hs, he⟩ : Accepted t := by
    rw [isInstruction, emission] at h
    split at h
    · rename_i s hs
      split at h
      · rename_i e he
        exact ⟨s, e, hs, he⟩
      · cases h
    · cases h
  rw [isInstruction, emission_of_ofText hs he] at h
  rw [slots, emission_of_ofText hs he]
  rcases Statement.emission_eq_ok_iff.mp he with ⟨-, rfl⟩ | ⟨i, slots, hi, hslots, rfl⟩
  · cases h
  · refine ⟨s, i, hs, hi, fun hm => ?_, hslots⟩
    rw [hm] at h
    cases h

/-- A line with an instruction adds a byte, so no two of them start at one address. -/
theorem slots_ne_nil (h : isInstruction t = true) : slots t ≠ [] := by
  obtain ⟨s, i, -, -, hm, hslots⟩ := exists_asks h
  exact Instruction.slots?_ne_nil hm hslots

end Line

/-! ### Adding a line -/

namespace Assembly

variable {a b : Assembly} {label : Option Text} {f : Fault}

/-- Binding a label puts it at the end of the table. -/
theorem declare_eq_ok_iff :
    a.declare label = .ok b ↔
      (∀ name ∈ label, a.labels.address? name = none ∧ Register.ofText? name = none) ∧
        b = { a with
          labels := ⟨a.labels.entries ++ label.toList.map fun l => (l, a.position)⟩ } := by
  cases label with
  | none =>
    have : (∀ name ∈ (none : Option Text),
        a.labels.address? name = none ∧ Register.ofText? name = none) := by simp
    rw [and_iff_right this, Option.toList_none, List.map_nil, List.append_nil, declare,
      Except.ok.injEq]
    exact eq_comm
  | some name =>
    simp only [declare, Fallible.bind_eq_ok_iff, Labels.declare_eq_ok_iff]
    simp [eq_comm]

/-- A label is refused if it is declared already, and else if it is the name of a register. -/
theorem declare_eq_error_iff :
    a.declare label = .error f ↔
      ∃ name, label = some name ∧
        ((a.labels.address? name ≠ none ∧ f = .duplicateLabel name) ∨
          (a.labels.address? name = none ∧ Register.ofText? name ≠ none ∧
            f = .reservedLabel name.upper)) := by
  cases label with
  | none => simp [declare]
  | some name =>
    simp only [declare, Fallible.bind_eq_error_iff, Labels.declare_eq_error_iff]
    simp

/-- The outcomes of adding a line: the state afterwards, and the fault if the line is refused. -/
inductive Added (a : Assembly) (line : Nat) (t : Text) : Assembly → Option Fault → Prop
  /-- The line is no statement. -/
  | malformed {f : Fault} (hs : Statement.ofText t = .error f) : Added a line t a (some f)
  /-- The label is refused. -/
  | undeclared {s : Statement} {f : Fault} (hs : Statement.ofText t = .ok s)
      (hd : a.declare s.label = .error f) : Added a line t a (some f)
  /-- The label is bound, and then the instruction is refused. -/
  | unencoded {s : Statement} {b : Assembly} {f : Fault} (hs : Statement.ofText t = .ok s)
      (hd : a.declare s.label = .ok b) (he : s.emission = .error f) : Added a line t b (some f)
  /-- The line is accepted. -/
  | accepted {s : Statement} {b : Assembly} {e : Emission} (hs : Statement.ofText t = .ok s)
      (hd : a.declare s.label = .ok b) (he : s.emission = .ok e) :
      Added a line t (b.emit line e) none

/-- **One step.** Adding a line has one of the four outcomes. -/
theorem added_addLine (a : Assembly) (line : Nat) (t : Text) :
    Added a line t (a.addLine line t).1 (a.addLine line t).2 := by
  rw [addLine]
  cases hs : Statement.ofText t with
  | error f => exact .malformed hs
  | ok s =>
    cases hd : a.declare s.label with
    | error f => simp only [hd]; exact .undeclared hs hd
    | ok b =>
      cases he : s.emission with
      | error f => simp only [hd, he]; exact .unencoded hs hd he
      | ok e => simp only [hd, he]; exact .accepted hs hd he

/-- A line has one outcome. -/
theorem Added.addLine_eq {line : Nat} {t : Text} {fault : Option Fault}
    (h : Added a line t b fault) : a.addLine line t = (b, fault) := by
  cases h with
  | malformed hs => simp only [addLine, hs]
  | undeclared hs hd => simp only [addLine, hs, hd]
  | unencoded hs hd he => simp only [addLine, hs, hd, he]
  | accepted hs hd he => simp only [addLine, hs, hd, he]

end Assembly

end Octasm
