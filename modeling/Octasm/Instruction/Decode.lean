import Octasm.Instruction

/-!
# Reading instructions back

The first byte of an instruction settles its form: no opcode belongs to two rows of the table. The
form says how many bytes follow and what each of them means.

Data is not decoded. Where data ends and instructions begin is not in the image; the source map of a
program says where instructions are.

## Main definitions

* `Layout.opcodes`: the opcodes of a layout
* `Form.ofOpcode?`: the form of an opcode
* `Instruction.decode?`: the instruction at the front of some bytes, and the bytes behind it

## Main results

* `Form.nodup_opcodes`: the opcodes of the table are all different
-/

namespace Octasm

/-! ### Opcodes of a form -/

/-- The opcodes of a band. -/
def Layout.band (base : UInt8) (width : Nat) : List UInt8 :=
  (List.range width).map fun i => base + UInt8.ofNat i

/-- The opcodes that a layout can start with. -/
def Layout.opcodes : Layout → List UInt8
  | data => []
  | fixed opcode => [opcode]
  | firstSelects base width => band base width
  | secondSelects base width => band base width

namespace Form

/-- The form whose opcodes include this one. -/
def ofOpcode? (code : UInt8) : Option Form := table.find? fun f => f.layout.opcodes.contains code

/-- No opcode stands for two instructions. -/
theorem nodup_opcodes : (table.flatMap fun f => f.layout.opcodes).Nodup := by
  decide +kernel

end Form

/-! ### Operands -/

/-- The operand of a kind that one byte stands for. -/
def Operand.ofByte? : Kind → UInt8 → Option Operand
  | .register, b => (Register.ofIndex? b).map Operand.register
  | .indirect, b => some (.indirect b)
  | .address, b => some (.address (.byte b))
  | .number, b => some (.number (.byte b))
  | .string, _ => none

/-- The operands of these kinds, one byte each, and the bytes behind them. -/
def Operand.readAll? : List Kind → List UInt8 → Option (List Operand × List UInt8)
  | [], bytes => some ([], bytes)
  | _ :: _, [] => none
  | kind :: kinds, b :: bytes => do
    let op ← Operand.ofByte? kind b
    let (ops, rest) ← Operand.readAll? kinds bytes
    some (op :: ops, rest)

/-! ### Instructions -/

namespace Instruction

/-- The instruction of a form whose opcode has been read, and the bytes behind it. -/
def decodeForm? (f : Form) (code : UInt8) (bytes : List UInt8) :
    Option (Instruction × List UInt8) :=
  match f.layout with
  | .data => none
  | .fixed _ => do
    let (ops, rest) ← Operand.readAll? f.kinds bytes
    some (⟨f.mnemonic, ops⟩, rest)
  | .firstSelects base _ => do
    let r ← Register.ofIndex? (code - base)
    let (ops, rest) ← Operand.readAll? f.kinds.tail bytes
    some (⟨f.mnemonic, .register r :: ops⟩, rest)
  | .secondSelects base _ => do
    let r ← Register.ofIndex? (code - base)
    let (ops, rest) ← Operand.readAll? f.kinds.dropLast bytes
    some (⟨f.mnemonic, ops ++ [.register r]⟩, rest)

/-- The instruction at the front of some bytes, and the bytes behind it. -/
def decode? : List UInt8 → Option (Instruction × List UInt8)
  | [] => none
  | code :: bytes => do
    let f ← Form.ofOpcode? code
    decodeForm? f code bytes

example : decode? [26, 5, 0] = some (⟨.mov, [.register .a, .number (.byte 5)]⟩, [0]) := by
  decide +kernel

example : decode? [25, 252] = some (⟨.mov, [.indirect 252, .register .sp]⟩, []) := by
  decide +kernel

end Instruction

end Octasm
