import Octasm.Proofs.Instruction.Opcode
import Octasm.Proofs.Instruction.Decoding
import Mathlib.Data.List.Chain
import Mathlib.Data.List.Nodup

/-!
# The names of opcodes

The table of names is read in both directions by searching it from the front. The search gives what
is in the table and nothing else, because no value and no name is in it twice: the values ascend,
and the names are different.

A name tells what an opcode does, and it begins with the mnemonic of the instruction that has the
opcode. The numbers of the instruction table and those of the names are written down apart, so this
is a fact about both tables.

## Main definitions

* `Mnemonic.Names`: the names of the opcodes of a mnemonic

## Main results

* `Opcode.name?_eq_some_iff`, `Opcode.ofName?_eq_some_iff`: reading the table in either direction
* `Form.names`: the name of an opcode belongs to the mnemonic of its row
-/

namespace Octasm

/-! ### Reading the table -/

/-- Where no key occurs twice, searching for a key finds the entry that has it. -/
theorem find?_key_eq_some_iff {α β : Type} [DecidableEq β] {entries : List α} {key : α → β}
    (h : (entries.map key).Nodup) {k : β} {x : α} :
    entries.find? (fun y => key y == k) = some x ↔ x ∈ entries ∧ key x = k := by
  constructor
  · intro hx
    exact ⟨List.mem_of_find?_eq_some hx, by simpa using List.find?_some hx⟩
  · rintro ⟨hmem, rfl⟩
    cases hy : entries.find? fun y => key y == key x with
    | none => exact absurd (beq_self_eq_true _) (List.find?_eq_none.mp hy x hmem)
    | some y =>
      have hkey : key y = key x := by simpa using List.find?_some hy
      rw [List.inj_on_of_nodup_map h (List.mem_of_find?_eq_some hy) hmem hkey]

namespace Opcode

variable {name : String} {code : UInt8}

theorem ascending : (named.map Prod.snd).Pairwise (· < ·) :=
  List.isChain_iff_pairwise.mp (by decide +kernel)

theorem nodup_names : (named.map Prod.fst).Nodup := by
  -- by their bytes, because the kernel takes much longer to compare strings
  have hbytes : ((named.map Prod.fst).map fun name => name.toByteArray.data.toList).Nodup := by
    decide +kernel
  exact hbytes.of_map _

/-- An opcode has the name that is beside it in the table. -/
theorem name?_eq_some_iff : name? code = some name ↔ (name, code) ∈ named := by
  have hcodes : (named.map Prod.snd).Nodup := ascending.imp fun hlt => UInt8.ne_of_lt hlt
  rw [name?, Option.map_eq_some_iff]
  simp only [find?_key_eq_some_iff hcodes, Prod.exists, exists_and_right, exists_eq_right]

/-- A name has the opcode that is beside it in the table. -/
theorem ofName?_eq_some_iff : ofName? name = some code ↔ (name, code) ∈ named := by
  rw [ofName?, Option.map_eq_some_iff]
  simp only [find?_key_eq_some_iff nodup_names, Prod.exists, exists_eq_right]

end Opcode

/-! ### Names and mnemonics -/

/-- The name of an opcode is the mnemonic, with more behind an underscore or nothing; that of `HLT`
is `NONE`. -/
def Mnemonic.Names (m : Mnemonic) (name : String) : Prop :=
  if m = .hlt then name = "NONE" else name.toList = m.name ∨ m.name ++ ['_'] <+: name.toList

instance (m : Mnemonic) (name : String) : Decidable (m.Names name) :=
  inferInstanceAs (Decidable (if m = .hlt then name = "NONE"
    else name.toList = m.name ∨ m.name ++ ['_'] <+: name.toList))

/-- The name of an opcode belongs to the mnemonic of its row. -/
theorem Form.names : ∀ f ∈ table, ∀ code ∈ f.layout.opcodes, ∀ name,
    (name, code) ∈ Opcode.named → f.mnemonic.Names name := by
  have hall : (table.all fun f => f.layout.opcodes.all fun code =>
      (Opcode.name? code).all fun name => decide (f.mnemonic.Names name)) = true := by
    decide +kernel
  simp only [List.all_eq_true, Option.all_eq_true, decide_eq_true_eq] at hall
  intro f hf code hcode name hname
  exact hall f hf code hcode name (Opcode.name?_eq_some_iff.mpr hname)

/-- The bytes of an instruction are an opcode that is named after its mnemonic, if it has a name,
and at most two operands. -/
theorem Instruction.exists_opcode {i : Instruction} {slots : List Slot} (hm : i.mnemonic ≠ .db)
    (h : i.slots? = some slots) : ∃ code operands, slots = .byte code :: operands ∧
      operands.length ≤ 2 ∧ ∀ name, (name, code) ∈ Opcode.named → i.mnemonic.Names name := by
  obtain ⟨code, operands, hslots, hlength, -⟩ := exists_head hm h
  obtain ⟨f, code', henc⟩ := exists_encodes hm h
  obtain ⟨hcode, -⟩ := List.cons.inj (hslots.symm.trans henc.slots)
  obtain rfl := Slot.byte.inj hcode
  refine ⟨code, operands, hslots, hlength, fun name hname => ?_⟩
  rw [← henc.mnemonic]
  exact Form.names f henc.mem code henc.opcode name hname

end Octasm
