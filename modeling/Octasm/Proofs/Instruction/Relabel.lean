import Octasm.Assembly
import Octasm.Instruction
import Mathlib.Data.List.Forall2

/-!
# Instructions under a change of their references

The form of an instruction does not depend on what its references are: a map of slots that leaves
bytes alone can be applied to the operands before the bytes are made, or to the bytes afterwards.
Linking is such a map, so the bytes of an instruction in an image are those of the same instruction
with its references resolved.

## Main definitions

* `Operand.mapSlots`, `Instruction.mapSlots`: change the references
* `Slot.linked`, `Instruction.linked`: resolve the references

## Main results

* `Instruction.slots?_mapSlots`: the bytes after a change of the references
* `Assembly.map_linked_of_forall₂_resolve`: linked slots are the bytes of the image
-/

namespace Octasm

/-! ### Changing slots -/

namespace Operand

/-- Change the slots of an operand that has a byte of its own. -/
def mapSlots (f : Slot → Slot) : Operand → Operand
  | register r => .register r
  | address s => .address (f s)
  | indirect packed => .indirect packed
  | number s => .number (f s)
  | string bytes => .string bytes

variable {f : Slot → Slot}

@[simp] theorem kind_mapSlots (op : Operand) : (op.mapSlots f).kind = op.kind := by
  cases op <;> rfl

theorem slots_mapSlots (hf : ∀ b, f (.byte b) = .byte b) (op : Operand) :
    (op.mapSlots f).slots = op.slots.map f := by
  cases op with
  | register r => simp [mapSlots, slots, hf]
  | address s => rfl
  | indirect packed => simp [mapSlots, slots, hf]
  | number s => rfl
  | string bytes => simp [mapSlots, slots, hf]

theorem flatMap_slots_mapSlots (hf : ∀ b, f (.byte b) = .byte b) (ops : List Operand) :
    (ops.map (mapSlots f)).flatMap slots = (ops.flatMap slots).map f := by
  rw [List.flatMap_map, List.map_flatMap]
  simp only [slots_mapSlots hf]

end Operand

namespace Layout

variable {f : Slot → Slot}

/-- A selected opcode is a byte, so only what follows it changes. -/
theorem map_cons_select? (hf : ∀ b, f (.byte b) = .byte b) (base : UInt8) (width : Nat)
    (r : Register) (slots : List Slot) :
    (select? base width r).map (fun opcode => opcode :: slots.map f)
      = ((select? base width r).map fun opcode => opcode :: slots).map (List.map f) := by
  rw [select?]
  split
  · rw [Option.map_some, Option.map_some, Option.map_some, List.map_cons, hf]
  · rfl

theorem slots?_mapSlots (hf : ∀ b, f (.byte b) = .byte b) (l : Layout) (ops : List Operand) :
    l.slots? (ops.map (Operand.mapSlots f)) = (l.slots? ops).map (List.map f) := by
  cases l with
  | data => rw [slots?, slots?, Operand.flatMap_slots_mapSlots hf, Option.map_some]
  | fixed opcode =>
    rw [slots?, slots?, Operand.flatMap_slots_mapSlots hf, Option.map_some, List.map_cons, hf]
  | firstSelects base width =>
    cases ops with
    | nil => rfl
    | cons op ops =>
      cases op with
      | register r =>
        rw [List.map_cons, Operand.mapSlots, slots?, slots?, Operand.flatMap_slots_mapSlots hf]
        exact map_cons_select? hf base width r _
      | _ => rfl
  | secondSelects base width =>
    match ops with
    | [] => rfl
    | [_] => rfl
    | [op, second] =>
      cases second with
      | register r =>
        rw [List.map_cons, List.map_cons, List.map_nil, show
          (Operand.register r).mapSlots f = .register r from rfl, slots?, slots?,
          Operand.slots_mapSlots hf]
        exact map_cons_select? hf base width r _
      | _ => rfl
    | _ :: second :: _ :: _ => cases second <;> rfl

end Layout

namespace Instruction

/-- Change the slots of the operands. -/
def mapSlots (f : Slot → Slot) (i : Instruction) : Instruction :=
  ⟨i.mnemonic, i.operands.map (Operand.mapSlots f)⟩

variable {f : Slot → Slot}

/-- **The form does not depend on the references.** -/
theorem slots?_mapSlots (hf : ∀ b, f (.byte b) = .byte b) (i : Instruction) :
    (i.mapSlots f).slots? = i.slots?.map (List.map f) := by
  have hkinds : (i.mapSlots f).operands.map Operand.kind = i.operands.map Operand.kind := by
    simp [mapSlots]
  have hlayout : ∀ l : Layout,
      l.slots? (i.mapSlots f).operands = (l.slots? i.operands).map (List.map f) :=
    fun l => l.slots?_mapSlots hf i.operands
  simp only [slots?, hkinds, hlayout, Option.bind_eq_bind, Option.map_bind]
  rfl

end Instruction

/-! ### Linking -/

/-- A slot as linking leaves it; one that cannot be resolved stays open. -/
def Slot.linked (labels : Labels) (s : Slot) : Slot :=
  match Assembly.resolve labels s with
  | .ok b => .byte b
  | .error _ => s

/-- An instruction with its references resolved. -/
def Instruction.linked (labels : Labels) (i : Instruction) : Instruction :=
  i.mapSlots (Slot.linked labels)

theorem Slot.linked_byte (labels : Labels) (b : UInt8) : linked labels (.byte b) = .byte b := rfl

/-- Slots that are resolved one by one become the bytes that they are resolved to. -/
theorem Assembly.map_linked_of_forall₂_resolve {labels : Labels} {slots : List Slot}
    {bytes : List UInt8} (h : List.Forall₂ (fun s b => resolve labels s = .ok b) slots bytes) :
    slots.map (Slot.linked labels) = bytes.map Slot.byte := by
  induction h with
  | nil => rfl
  | cons hs _ ih => rw [List.map_cons, List.map_cons, ih, Slot.linked, hs]

end Octasm
