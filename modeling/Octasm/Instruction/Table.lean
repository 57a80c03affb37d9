import Octasm.Instruction.Form

/-!
# The instruction table

All forms of all instructions, grouped as the machine groups them. The opcodes of a group are
consecutive, and within a group the source operand goes through register, register-indirect,
address and number in an order that is the group's own; the tables below spell the bases out.
-/

namespace Octasm

namespace Form

/-! ### Groups of forms -/

/-- Data: one byte, or the characters of a string. -/
def dataForms : List Form :=
  [⟨.db, [.number], .data⟩, ⟨.db, [.string], .data⟩]

/-- Instructions without operands. -/
def bareForms : List Form :=
  [⟨.hlt, [], .fixed 0⟩, ⟨.ret, [], .fixed 130⟩]

/-- Moves. The register that is read or written selects the opcode, the destination before the
source; a move from a number to memory has no register and one opcode. -/
def moveForms : List Form :=
  [⟨.mov, [.register, .register], .firstSelects 1 5⟩,
    ⟨.mov, [.register, .address], .firstSelects 6 5⟩,
    ⟨.mov, [.register, .indirect], .firstSelects 11 5⟩,
    ⟨.mov, [.address, .register], .secondSelects 16 5⟩,
    ⟨.mov, [.indirect, .register], .secondSelects 21 5⟩,
    ⟨.mov, [.register, .number], .firstSelects 26 5⟩,
    ⟨.mov, [.address, .number], .fixed 31⟩,
    ⟨.mov, [.indirect, .number], .fixed 32⟩]

/-- Sums, differences and comparisons: the register selects the opcode in a band of five. -/
def sumForms (m : Mnemonic) (register indirect address number : UInt8) : List Form :=
  [⟨m, [.register, .register], .firstSelects register 5⟩,
    ⟨m, [.register, .indirect], .firstSelects indirect 5⟩,
    ⟨m, [.register, .address], .firstSelects address 5⟩,
    ⟨m, [.register, .number], .firstSelects number 5⟩]

/-- Bitwise instructions and shifts: one opcode for each kind of source. -/
def bitForms (m : Mnemonic) (register indirect address number : UInt8) : List Form :=
  [⟨m, [.register, .register], .fixed register⟩,
    ⟨m, [.register, .indirect], .fixed indirect⟩,
    ⟨m, [.register, .address], .fixed address⟩,
    ⟨m, [.register, .number], .fixed number⟩]

/-- Jumps and calls: the target is in a register or is a number. -/
def jumpForms (m : Mnemonic) (register number : UInt8) : List Form :=
  [⟨m, [.register], .fixed register⟩, ⟨m, [.number], .fixed number⟩]

/-- Instructions on any one source. The register selects the opcode in a band of four. -/
def sourceForms (m : Mnemonic) (register indirect address number : UInt8) : List Form :=
  [⟨m, [.register], .firstSelects register 4⟩, ⟨m, [.indirect], .fixed indirect⟩,
    ⟨m, [.address], .fixed address⟩, ⟨m, [.number], .fixed number⟩]

/-- Instructions on one register. Popping does not serve the stack pointer. -/
def registerForms : List Form :=
  [⟨.inc, [.register], .firstSelects 73 5⟩, ⟨.dec, [.register], .firstSelects 78 5⟩,
    ⟨.pop, [.register], .firstSelects 124 4⟩, ⟨.not, [.register], .fixed 193⟩]

/-! ### The whole table -/

/-- Every form of every instruction. -/
def table : List Form :=
  dataForms ++ bareForms ++ moveForms ++ registerForms
    ++ sumForms .add 33 38 43 48 ++ sumForms .sub 53 58 63 68 ++ sumForms .cmp 83 88 93 98
    ++ jumpForms .jmp 104 103 ++ jumpForms .jc 106 105 ++ jumpForms .jnc 108 107
    ++ jumpForms .jz 110 109 ++ jumpForms .jnz 112 111 ++ jumpForms .ja 114 113
    ++ jumpForms .jna 116 115 ++ jumpForms .call 128 129
    ++ sourceForms .push 117 121 122 123 ++ sourceForms .mul 131 135 136 137
    ++ sourceForms .div 138 142 143 144
    ++ bitForms .and 145 149 153 157 ++ bitForms .or 161 165 169 173
    ++ bitForms .xor 177 181 185 189 ++ bitForms .shl 197 201 205 209
    ++ bitForms .shr 213 217 221 225

/-- The layout of a mnemonic with operands of these kinds, if there is such a form. -/
def layout? (m : Mnemonic) (kinds : List Kind) : Option Layout :=
  (table.find? fun f => f.mnemonic == m && f.kinds == kinds).map Form.layout

/-- No mnemonic has two forms for the same kinds. -/
theorem table_pairwise :
    table.Pairwise fun f g => (f.mnemonic, f.kinds) ≠ (g.mnemonic, g.kinds) := by
  decide

end Form

end Octasm
