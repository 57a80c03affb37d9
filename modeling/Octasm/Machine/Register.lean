import Octasm.Text.Ascii

/-!
# Registers

Four general registers and the stack pointer. A register's index is its number inside operand
bytes and its place in an opcode band, so `sp` comes last: a band of four leaves it out.

Register names are matched whole and in either case, and they are never label names.
-/

namespace Octasm

/-- The registers of the machine. -/
inductive Register
  | a | b | c | d | sp
  deriving DecidableEq, Repr

namespace Register

/-- All registers, in the order of their indices. -/
def all : List Register := [a, b, c, d, sp]

theorem mem_all (r : Register) : r ∈ all := by cases r <;> decide

/-- The number of the register in operand bytes and opcode bands. -/
def index : Register → UInt8
  | a => 0
  | b => 1
  | c => 2
  | d => 3
  | sp => 4

/-- The register with an index. -/
def ofIndex? (i : UInt8) : Option Register := all.find? fun r => r.index == i

@[simp] theorem ofIndex?_index (r : Register) : ofIndex? r.index = some r := by
  cases r <;> decide

theorem index_injective {r s : Register} (h : r.index = s.index) : r = s := by
  have := congrArg ofIndex? h
  simpa using this

/-- The name of the register in capitals. -/
def name : Register → Text
  | a => ['A']
  | b => ['B']
  | c => ['C']
  | d => ['D']
  | sp => ['S', 'P']

/-- The register that a text names, in either case. -/
def ofText? (t : Text) : Option Register := all.find? fun r => r.name == t.upper

@[simp] theorem ofText?_name (r : Register) : ofText? r.name = some r := by
  cases r <;> decide

/-- A text names a register if it is a spelling of the register's name. -/
theorem ofText?_eq_some_iff {t : Text} {r : Register} :
    ofText? t = some r ↔ t.upper = r.name := by
  constructor
  · intro h
    have := List.find?_some h
    exact (beq_iff_eq.mp this).symm
  · intro h
    simp only [ofText?, h]
    cases r <;> decide

end Register

end Octasm
