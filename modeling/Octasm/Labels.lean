import Octasm.Fault
import Octasm.Machine.Register

/-!
# Label tables

A table maps names to addresses. Case does not matter for finding a name, the spelling of the
declaration is kept, and declarations stay in the order in which they were made. The first
declaration of a name is the only one: a second is refused, as is the name of a register.

## Main definitions

* `Labels.address?`: the address of a name
* `Labels.declare`: add a name, or say why it is refused
* `Labels.toMap`: the table as a map from names as they are written
-/

namespace Octasm

/-- Names with their addresses, in the order of their declaration. -/
structure Labels where
  entries : List (Text × Nat)
  deriving DecidableEq, Repr

namespace Labels

/-- The table without names. -/
def empty : Labels := ⟨[]⟩

/-- The number of names. -/
def size (ls : Labels) : Nat := ls.entries.length

/-- The address of a name in any case. -/
def address? (ls : Labels) (name : Text) : Option Nat :=
  (ls.entries.find? fun entry => entry.1.upper == name.upper).map Prod.snd

/-- Add a name at the end of the table. -/
def declare (ls : Labels) (name : Text) (address : Nat) : Except Fault Labels :=
  if (ls.address? name).isSome then .error (.duplicateLabel name)
  else if (Register.ofText? name).isSome then .error (.reservedLabel name.upper)
  else .ok ⟨ls.entries ++ [(name, address)]⟩

/-- Put an address under a name as it is written. A name that is there keeps its place, and its
address is replaced; any other goes to the end. -/
def put (name : Text) (address : Nat) : List (Text × Nat) → List (Text × Nat)
  | [] => [(name, address)]
  | entry :: entries =>
    if entry.1 = name then (name, address) :: entries else entry :: put name address entries

/-- The table as a map from names as they are written, made entry by entry. Its keys are not those
that names are found by, and entries with one key would become one. -/
def toMap (ls : Labels) : List (Text × Nat) :=
  ls.entries.foldl (fun entries entry => put entry.1 entry.2 entries) []

/-- Spellings of one name have one address. -/
theorem address?_congr {ls : Labels} {m n : Text} (h : Text.SameName m n) :
    ls.address? m = ls.address? n := by
  simp only [address?, show m.upper = n.upper from h]

@[simp] theorem address?_empty (name : Text) : empty.address? name = none := rfl

/-- A declared name is found at its address. -/
theorem address?_declare_self {ls ls' : Labels} {name : Text} {address : Nat}
    (h : ls.declare name address = .ok ls') : ls'.address? name = some address := by
  unfold declare at h
  split at h
  · cases h
  · split at h
    · cases h
    · rename_i hnone _
      cases h
      have : ls.entries.find? (fun entry => entry.1.upper == name.upper) = none := by
        simpa [address?] using hnone
      simp [address?, List.find?_append, this]

end Labels

end Octasm
