import Octasm.Machine.Mnemonic
import Octasm.Machine.Opcode
import Octasm.Operand

/-!
# Instruction forms

An instruction form says which kinds of operands a mnemonic takes and how the statement becomes
bytes. There are four layouts. Data has no opcode. Every other layout starts with one; where a band
of opcodes stands for one instruction, a register operand selects the member of the band and takes
no byte of its own. All operands that are left follow the opcode, one byte each, in the order of the
source.

A band has five members, or four where the stack pointer is not served.

## Main definitions

* `Kind`, `Operand.kind`: the shapes that forms tell apart
* `Layout`: how operands become bytes
* `Layout.slots?`: the bytes
-/

namespace Octasm

/-- The kinds of operands. -/
inductive Kind
  | register | indirect | address | number | string
  deriving DecidableEq, Repr

namespace Operand

/-- The kind of an operand. -/
def kind : Operand → Kind
  | register _ => .register
  | indirect _ => .indirect
  | address _ => .address
  | number _ => .number
  | string _ => .string

/-- The bytes that stand for an operand by itself. -/
def slots : Operand → List Slot
  | register r => [.byte r.index]
  | indirect packed => [.byte packed]
  | address location => [location]
  | number value => [value]
  | string bytes => bytes.map Slot.byte

end Operand

/-- How a statement becomes bytes. -/
inductive Layout
  /-- The operands alone. -/
  | data
  /-- One opcode and then every operand. -/
  | fixed (opcode : UInt8)
  /-- The first operand is a register that selects one of `width` opcodes from `base` on. -/
  | firstSelects (base : UInt8) (width : Nat)
  /-- The second operand is a register that selects one of `width` opcodes from `base` on. -/
  | secondSelects (base : UInt8) (width : Nat)
  deriving DecidableEq, Repr

namespace Layout

/-- The member of a band that a register selects, if the band is wide enough. -/
def select? (base : UInt8) (width : Nat) (r : Register) : Option Slot :=
  if r.index.toNat < width then some (.byte (Opcode.inBand base r)) else none

/-- The bytes of a statement with this layout. -/
def slots? : Layout → List Operand → Option (List Slot)
  | data, ops => some (ops.flatMap Operand.slots)
  | fixed opcode, ops => some (.byte opcode :: ops.flatMap Operand.slots)
  | firstSelects base width, .register r :: ops =>
    (select? base width r).map fun opcode => opcode :: ops.flatMap Operand.slots
  | secondSelects base width, [op, .register r] =>
    (select? base width r).map fun opcode => opcode :: op.slots
  | _, _ => none

end Layout

/-- A form of an instruction: its mnemonic, the kinds of its operands, and its layout. -/
structure Form where
  mnemonic : Mnemonic
  kinds : List Kind
  layout : Layout
  deriving DecidableEq, Repr

end Octasm
