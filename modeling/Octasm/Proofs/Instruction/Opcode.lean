import Octasm.Instruction.Decode

/-!
# The opcode of an instruction

Every instruction except data starts with an opcode. This file says what is in the bytes behind it
and what is in the opcode itself: a layout either leaves all operands to the bytes that follow, or
folds one register into the opcode.

The table enters through a few decidable facts, and nothing else in the theory looks at its rows:
only data has no opcode, only data takes strings, no row has more than two operands, every opcode of
a band stands for a register, and no opcode belongs to two rows.

## Main definitions

* `Layout.folded?`, `Layout.following`: the register in the opcode and the operands behind it
* `Layout.selected?`: the register that an opcode stands for
* `Form.Encodes`: an instruction has its bytes from a row of the table

## Main results

* `Form.ofOpcode?_eq_some`: an opcode of a row leads back to the row
* `Layout.slots?_eq_some`: the bytes of a layout are an opcode and the operands behind it
* `Instruction.exists_encodes`: every instruction but data has its bytes from a row
* `Form.Encodes.unique`: the opcode settles the row
-/

namespace Octasm

/-! ### What the table promises -/

namespace Form

/-- Only data is laid out without an opcode. -/
theorem mnemonic_of_layout_eq_data : ∀ f ∈ table, f.layout = .data → f.mnemonic = .db := by
  decide

/-- Only data takes strings. -/
theorem string_notMem_kinds : ∀ f ∈ table, f.layout ≠ .data → .string ∉ f.kinds := by
  decide

/-- No instruction has more than two operands. -/
theorem length_kinds_le : ∀ f ∈ table, f.kinds.length ≤ 2 := by
  decide

/-- An opcode of a row leads back to the row: bands do not run into each other. -/
theorem ofOpcode?_eq_some : ∀ f ∈ table, ∀ code ∈ f.layout.opcodes, ofOpcode? code = some f := by
  -- through `List.all`, so that only the opcodes of the rows are tried and not all bytes
  have hall : (table.all fun f =>
      f.layout.opcodes.all fun code => decide (ofOpcode? code = some f)) = true := by
    decide +kernel
  simpa only [List.all_eq_true, decide_eq_true_eq] using hall

/-- A layout that is found for a mnemonic and kinds makes a row of the table with them. -/
theorem mem_table_of_layout? {m : Mnemonic} {kinds : List Kind} {l : Layout}
    (h : layout? m kinds = some l) : (⟨m, kinds, l⟩ : Form) ∈ table := by
  obtain ⟨f, hf, rfl⟩ := Option.map_eq_some_iff.mp h
  obtain ⟨rfl, rfl⟩ : f.mnemonic = m ∧ f.kinds = kinds := by simpa using List.find?_some hf
  exact List.mem_of_find?_eq_some hf

end Form

/-! ### Folded registers -/

namespace Layout

/-- The operand that takes no byte of its own, if there is one. -/
def folded? : Layout → List Operand → Option Register
  | firstSelects _ _, .register r :: _ => some r
  | secondSelects _ _, [_, .register r] => some r
  | _, _ => none

/-- The operands that follow the opcode. -/
def following : Layout → List Operand → List Operand
  | firstSelects _ _, ops => ops.tail
  | secondSelects _ _, ops => ops.dropLast
  | _, ops => ops

/-- The register that an opcode of the layout stands for. -/
def selected? : Layout → UInt8 → Option Register
  | firstSelects base _, code => Register.ofIndex? (code - base)
  | secondSelects base _, code => Register.ofIndex? (code - base)
  | _, _ => none

/-- Put a register from the opcode back among the operands that follow it. -/
def unfold : Layout → Option Register → List Operand → List Operand
  | firstSelects _ _, some r, ops => .register r :: ops
  | secondSelects _ _, some r, ops => ops ++ [.register r]
  | _, _, ops => ops

/-- The kinds of the operands that follow the opcode. -/
def followingKinds : Layout → List Kind → List Kind
  | firstSelects _ _, kinds => kinds.tail
  | secondSelects _ _, kinds => kinds.dropLast
  | _, kinds => kinds

theorem map_kind_following (l : Layout) (ops : List Operand) :
    (l.following ops).map Operand.kind = l.followingKinds (ops.map Operand.kind) := by
  cases l <;> simp [following, followingKinds]

theorem mem_of_mem_followingKinds {l : Layout} {kinds : List Kind} {k : Kind}
    (h : k ∈ l.followingKinds kinds) : k ∈ kinds := by
  cases l with
  | data => exact h
  | fixed => exact h
  | firstSelects => exact List.mem_of_mem_tail h
  | secondSelects => exact (List.dropLast_sublist kinds).subset h

theorem length_followingKinds_le (l : Layout) (kinds : List Kind) :
    (l.followingKinds kinds).length ≤ kinds.length := by
  cases l with
  | data => exact Nat.le_refl _
  | fixed => exact Nat.le_refl _
  | firstSelects => exact (List.tail_sublist kinds).length_le
  | secondSelects => exact (List.dropLast_sublist kinds).length_le

/-- A register selects its own opcode of the band. -/
theorem select?_eq_some {base : UInt8} {width : Nat} {r : Register} {s : Slot}
    (h : select? base width r = some s) :
    s = .byte (Opcode.inBand base r) ∧ Opcode.inBand base r ∈ band base width ∧
      Register.ofIndex? (Opcode.inBand base r - base) = some r := by
  rw [select?] at h
  split at h
  · rename_i hr
    refine ⟨(Option.some.inj h).symm, List.mem_map.mpr ⟨r.index.toNat, ?_, ?_⟩, ?_⟩
    · exact List.mem_range.mpr hr
    · rw [UInt8.ofNat_toNat, Opcode.inBand]
    · have : base + r.index - base = r.index := by rw [UInt8.add_comm, UInt8.add_sub_cancel]
      rw [Opcode.inBand, this, Register.ofIndex?_index]
  · cases h

/-- The bytes of a layout are one of its opcodes and the operands that are not folded into it. -/
theorem slots?_eq_some {l : Layout} {ops : List Operand} {slots : List Slot} (hl : l ≠ .data)
    (h : l.slots? ops = some slots) :
    ∃ code ∈ l.opcodes, slots = .byte code :: (l.following ops).flatMap Operand.slots ∧
      l.selected? code = l.folded? ops ∧ l.unfold (l.folded? ops) (l.following ops) = ops := by
  match l, ops with
  | .data, _ => exact absurd rfl hl
  | .fixed opcode, ops =>
    exact ⟨opcode, List.mem_singleton.mpr rfl, (Option.some.inj h).symm, rfl, rfl⟩
  | .firstSelects base width, .register r :: ops =>
    obtain ⟨s, hs, rfl⟩ := Option.map_eq_some_iff.mp h
    obtain ⟨rfl, hmem, hr⟩ := select?_eq_some hs
    exact ⟨Opcode.inBand base r, hmem, rfl, hr, rfl⟩
  | .secondSelects base width, [op, .register r] =>
    obtain ⟨s, hs, rfl⟩ := Option.map_eq_some_iff.mp h
    obtain ⟨rfl, hmem, hr⟩ := select?_eq_some hs
    exact ⟨Opcode.inBand base r, hmem, by simp [following], hr, rfl⟩

end Layout

/-! ### Encoded instructions -/

/-- An instruction has its bytes from a row of the table: an opcode of the row, and the operands
that the row does not fold into it. -/
structure Form.Encodes (f : Form) (i : Instruction) (code : UInt8) (slots : List Slot) : Prop where
  mem : f ∈ table
  found : layout? i.mnemonic (i.operands.map Operand.kind) = some f.layout
  layout : f.layout ≠ .data
  mnemonic : f.mnemonic = i.mnemonic
  kinds : f.kinds = i.operands.map Operand.kind
  opcode : code ∈ f.layout.opcodes
  slots : slots = .byte code :: (f.layout.following i.operands).flatMap Operand.slots
  selected : f.layout.selected? code = f.layout.folded? i.operands
  unfold : f.layout.unfold (f.layout.folded? i.operands) (f.layout.following i.operands)
    = i.operands

namespace Form

variable {f g : Form} {i j : Instruction} {code : UInt8} {xs ys : List Slot}

/-- Every opcode of a band stands for a register: no band has more than five members. -/
theorem fixed_or_selected : ∀ f ∈ table, ∀ code ∈ f.layout.opcodes,
    f.layout = .fixed code ∨ (f.layout.selected? code).isSome := by
  have hall : (table.all fun f => f.layout.opcodes.all fun code =>
      decide (f.layout = .fixed code) || (f.layout.selected? code).isSome) = true := by
    decide +kernel
  simpa only [List.all_eq_true, Bool.or_eq_true, decide_eq_true_eq] using hall

/-- Two encodings with one opcode are of one row. -/
theorem Encodes.unique (h : f.Encodes i code xs) (k : g.Encodes j code ys) : f = g := by
  have hf := ofOpcode?_eq_some f h.mem code h.opcode
  rw [ofOpcode?_eq_some g k.mem code k.opcode] at hf
  exact (Option.some.inj hf).symm

/-- No operand behind the opcode is a string. -/
theorem Encodes.kind_ne_string (h : f.Encodes i code xs) :
    ∀ op ∈ f.layout.following i.operands, op.kind ≠ .string := by
  intro op hop hkind
  have hmem : .string ∈ (f.layout.following i.operands).map Operand.kind :=
    List.mem_map.mpr ⟨op, hop, hkind⟩
  rw [Layout.map_kind_following, ← h.kinds] at hmem
  exact string_notMem_kinds f h.mem h.layout (Layout.mem_of_mem_followingKinds hmem)

end Form

namespace Instruction

variable {i j : Instruction} {slots : List Slot}

/-- An instruction is its mnemonic and its operands. -/
theorem ext (hm : i.mnemonic = j.mnemonic) (ho : i.operands = j.operands) : i = j := by
  calc
    i = ⟨i.mnemonic, i.operands⟩ := rfl
    _ = ⟨j.mnemonic, j.operands⟩ := by rw [hm, ho]
    _ = j := rfl

/-- Every instruction but data has its bytes from a row of the table. -/
theorem exists_encodes (hm : i.mnemonic ≠ .db) (h : i.slots? = some slots) :
    ∃ f code, Form.Encodes f i code slots := by
  obtain ⟨l, hl, hs⟩ := Option.bind_eq_some_iff.mp h
  have hmem := Form.mem_table_of_layout? hl
  have hdata : l ≠ .data := fun hd => hm (Form.mnemonic_of_layout_eq_data _ hmem hd)
  obtain ⟨code, hcode, hslots, hsel, hops⟩ := Layout.slots?_eq_some hdata hs
  exact ⟨_, code, hmem, hl, hdata, rfl, rfl, hcode, hslots, hsel, hops⟩

theorem slots?_ne_nil (hm : i.mnemonic ≠ .db) (h : i.slots? = some slots) : slots ≠ [] := by
  obtain ⟨f, code, henc⟩ := exists_encodes hm h
  rw [henc.slots]
  exact List.cons_ne_nil _ _

end Instruction

end Octasm
