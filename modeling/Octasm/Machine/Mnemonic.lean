import Octasm.Text.Ascii

/-!
# Mnemonics

Twenty-six instructions and one directive. Several conditional jumps and shifts have more than one
name; all names of a mnemonic are listed with it, the canonical one first, and reading a name is a
search through these lists, so a name belongs to the mnemonic that lists it and to no other.
-/

namespace Octasm

/-- What a statement asks for. `db` places data, all others are machine instructions. -/
inductive Mnemonic
  | db | hlt | mov | add | sub | inc | dec | cmp
  | jmp | jc | jnc | jz | jnz | ja | jna
  | push | pop | call | ret | mul | div
  | and | or | xor | not | shl | shr
  deriving DecidableEq, Repr

namespace Mnemonic

/-- All mnemonics. -/
def all : List Mnemonic :=
  [db, hlt, mov, add, sub, inc, dec, cmp, jmp, jc, jnc, jz, jnz, ja, jna,
    push, pop, call, ret, mul, div, and, or, xor, not, shl, shr]

theorem mem_all (m : Mnemonic) : m ∈ all := by cases m <;> decide

/-! ### Names -/

/-- The canonical name. -/
def name : Mnemonic → Text
  | db => ['D', 'B']
  | hlt => ['H', 'L', 'T']
  | mov => ['M', 'O', 'V']
  | add => ['A', 'D', 'D']
  | sub => ['S', 'U', 'B']
  | inc => ['I', 'N', 'C']
  | dec => ['D', 'E', 'C']
  | cmp => ['C', 'M', 'P']
  | jmp => ['J', 'M', 'P']
  | jc => ['J', 'C']
  | jnc => ['J', 'N', 'C']
  | jz => ['J', 'Z']
  | jnz => ['J', 'N', 'Z']
  | ja => ['J', 'A']
  | jna => ['J', 'N', 'A']
  | push => ['P', 'U', 'S', 'H']
  | pop => ['P', 'O', 'P']
  | call => ['C', 'A', 'L', 'L']
  | ret => ['R', 'E', 'T']
  | mul => ['M', 'U', 'L']
  | div => ['D', 'I', 'V']
  | and => ['A', 'N', 'D']
  | or => ['O', 'R']
  | xor => ['X', 'O', 'R']
  | not => ['N', 'O', 'T']
  | shl => ['S', 'H', 'L']
  | shr => ['S', 'H', 'R']

/-- Further names: "below" and "above or equal" are statements about the carry, "equal" is one
about zero, and an arithmetic shift is the logical one. -/
def aliases : Mnemonic → List Text
  | jc => [['J', 'B'], ['J', 'N', 'A', 'E']]
  | jnc => [['J', 'N', 'B'], ['J', 'A', 'E']]
  | jz => [['J', 'E']]
  | jnz => [['J', 'N', 'E']]
  | ja => [['J', 'N', 'B', 'E']]
  | jna => [['J', 'B', 'E']]
  | shl => [['S', 'A', 'L']]
  | shr => [['S', 'A', 'R']]
  | _ => []

/-- Every name of a mnemonic, the canonical one first. -/
def names (m : Mnemonic) : List Text := m.name :: m.aliases

/-- The mnemonic that a text names, in either case. -/
def ofText? (t : Text) : Option Mnemonic := all.find? fun m => m.names.contains t.upper

theorem ofText?_of_mem_names {m : Mnemonic} {t : Text} (h : t ∈ m.names) :
    ofText? t = some m := by
  revert t
  cases m <;> decide

/-! ### Data and instructions -/

/-- Does the statement place data? It is then no place where execution can stop. -/
def isDirective (m : Mnemonic) : Bool := m == db

end Mnemonic

end Octasm
