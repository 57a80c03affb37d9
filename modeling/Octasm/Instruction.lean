import Octasm.Instruction.Table

/-!
# Instructions and their bytes

An `Instruction` is a mnemonic with classified operands. Its bytes are those of its form in the
table; an instruction without a form has none.

Operand tokens are classified one at a time, and only as far as the mnemonic takes operands: a
surplus operand is refused without being looked at.

## Main definitions

* `Instruction.slots?`: the bytes of an instruction
* `Mnemonic.arity`: how many operands are looked at
* `Instruction.classify`: the operands of a statement
* `Instruction.encode`: from mnemonic and tokens to bytes, with the fault if there are none
-/

namespace Octasm

/-- A mnemonic with its operands. -/
structure Instruction where
  mnemonic : Mnemonic
  operands : List Operand
  deriving DecidableEq, Repr

/-- How many operands a mnemonic takes. -/
def Mnemonic.arity : Mnemonic → Nat
  | hlt | ret => 0
  | mov | add | sub | cmp | and | or | xor | shl | shr => 2
  | _ => 1

namespace Instruction

/-- The bytes of an instruction, opcode first. -/
def slots? (i : Instruction) : Option (List Slot) := do
  let layout ← Form.layout? i.mnemonic (i.operands.map Operand.kind)
  layout.slots? i.operands

/-- The operand of a token that has to be there. -/
def required (name : Text) : Option Text → Except Fault Operand
  | some token => Operand.ofText token
  | none => .error (.unsupportedOperands name)

/-- The operands of a mnemonic from the tokens of a statement; `name` is its raised spelling. -/
def classify (arity : Nat) (name : Text) (first second : Option Text) :
    Except Fault (List Operand) :=
  match arity with
  | 0 => if first.isSome then .error (.tooManyOperands name) else .ok []
  | 1 => do
    let op ← required name first
    if second.isSome then .error (.tooManyOperands name) else .ok [op]
  | _ => do
    let op₁ ← required name first
    let op₂ ← required name second
    .ok [op₁, op₂]

/-- The bytes of a statement. Faults name the mnemonic as it is spelled there, raised. -/
def encode (m : Mnemonic) (spelling : Text) (first second : Option Text) :
    Except Fault (List Slot) := do
  let name := spelling.upper
  let operands ← classify m.arity name first second
  match slots? ⟨m, operands⟩ with
  | some slots => .ok slots
  | none => .error (.unsupportedOperands name)

end Instruction

end Octasm
