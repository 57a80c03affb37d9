import Octasm.Proofs.Line
import Octasm.Proofs.Operand.Spelling

/-!
# Labels that operands refer to

An operand refers to a label in a byte of its own. The operand is well formed, because a token has
been read, and so the label is one that can be declared: no reference is to a name that the label
table refuses. Layouts and statements add no references of their own, so the same is true of all the
bytes of a line.

## Main results

* `Operand.declarable_of_ofText`: an operand refers to a name that a label may have
* `Line.declarable_of_mem_slots`: so do the bytes of a line
-/

namespace Octasm

namespace Operand

variable {name token : Text} {op : Operand}

/-- Only addresses and numbers refer to a label. -/
theorem label_mem_slots_iff :
    .label name ∈ op.slots ↔ op = .address (.label name) ∨ op = .number (.label name) := by
  cases op <;> simp [slots, eq_comm]

/-- **An operand** refers to a name that a label may have, whatever stands around the name. -/
theorem declarable_of_ofText (h : ofText token = .ok op) (hname : .label name ∈ op.slots) :
    name.Declarable := by
  have hop := (ofText_eq_ok_iff.mp h).wellFormed
  rcases label_mem_slots_iff.mp hname with rfl | rfl
  · exact hop
  · exact hop

end Operand

namespace Layout

theorem mem_of_mem_following {l : Layout} {ops : List Operand} {op : Operand}
    (h : op ∈ l.following ops) : op ∈ ops := by
  cases l with
  | data => exact h
  | fixed => exact h
  | firstSelects => exact List.mem_of_mem_tail h
  | secondSelects => exact (List.dropLast_sublist ops).subset h

/-- A layout adds no reference to those of the operands. -/
theorem exists_of_label_mem {l : Layout} {ops : List Operand} {slots : List Slot} {name : Text}
    (h : l.slots? ops = some slots) (hname : .label name ∈ slots) :
    ∃ op ∈ ops, .label name ∈ op.slots := by
  by_cases hl : l = .data
  · subst hl
    obtain rfl := Option.some.inj h
    exact List.mem_flatMap.mp hname
  · obtain ⟨code, -, rfl, -⟩ := slots?_eq_some hl h
    -- the opcode is a byte, so the reference stands behind it
    have hbehind := List.mem_of_ne_of_mem Slot.noConfusion hname
    obtain ⟨op, hop, hmem⟩ := List.mem_flatMap.mp hbehind
    exact ⟨op, mem_of_mem_following hop, hmem⟩

end Layout

namespace Instruction

/-- The operands of a statement are those of its tokens. -/
theorem exists_ofText_of_classify {arity : Nat} {name : Text} {first second : Option Text}
    {ops : List Operand} {op : Operand} (h : classify arity name first second = .ok ops)
    (hop : op ∈ ops) : ∃ token, Operand.ofText token = .ok op := by
  have hrequired : ∀ {token? op}, required name token? = .ok op →
      ∃ token, Operand.ofText token = .ok op := by
    intro token? op hop
    cases token? with
    | none => cases hop
    | some token => exact ⟨token, hop⟩
  rw [classify.eq_def] at h
  split at h
  · split at h
    · cases h
    · cases h
      cases hop
  · obtain ⟨op₁, h₁, h⟩ := Fallible.bind_eq_ok_iff.mp h
    split at h
    · cases h
    · cases h
      rw [List.mem_singleton.mp hop]
      exact hrequired h₁
  · obtain ⟨op₁, h₁, h⟩ := Fallible.bind_eq_ok_iff.mp h
    obtain ⟨op₂, h₂, h⟩ := Fallible.bind_eq_ok_iff.mp h
    cases h
    rcases List.mem_cons.mp hop with rfl | hop
    · exact hrequired h₁
    · rw [List.mem_singleton.mp hop]
      exact hrequired h₂

end Instruction

namespace Line

/-- **The bytes of a line** refer to names that a label may have. -/
theorem declarable_of_mem_slots {t name : Text} (h : .label name ∈ slots t) :
    name.Declarable := by
  rw [slots, emission] at h
  split at h
  · split at h
    · rename_i e he
      rcases Statement.emission_eq_ok_iff.mp he with ⟨-, rfl⟩ | ⟨i, slots, hasks, hslots, rfl⟩
      · cases h
      · obtain ⟨l, -, hl⟩ := Option.bind_eq_some_iff.mp hslots
        obtain ⟨op, hop, hname⟩ := Layout.exists_of_label_mem hl h
        obtain ⟨spelling, -, -, hclassify⟩ := hasks
        obtain ⟨token, htoken⟩ := Instruction.exists_ofText_of_classify hclassify hop
        exact Operand.declarable_of_ofText htoken hname
    · cases h
  · cases h

end Line

end Octasm
