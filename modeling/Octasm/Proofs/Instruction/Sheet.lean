import Octasm.Proofs.Instruction.Opcode

/-!
# The instruction sheet

A programmer reads the instruction set from a sheet: which operands a mnemonic takes, by which name
its opcode goes, and what follows the opcode. `Listed` is that sheet. It knows opcodes by name only
and says nothing about their numbers, bands or layouts; the numbers come from the list of names that
the machine shares, `Opcode.named`.

The working table of forms is the other way round, all numbers and no names. The main result is that
the two agree on every mnemonic with every operands, so that no form of the table is missing from
the sheet, none is there that the sheet does not list, and all bytes are the same.

## Main definitions

* `Row`, `Row.bytes?`: a row of the sheet, and the bytes that it stands for
* `Instruction.Listed`: the sheet
* `Form.Numbered`: the table has a layout with the number of an opcode's name

## Main results

* `Instruction.Listed.exists_bytes`: a listed instruction has bytes, and they are those of its row
* `Instruction.exists_listed`: every instruction with bytes is listed
* `Instruction.slots?_eq_some_iff_listed`, `Instruction.slots?_eq_none_iff_listed`: the table and
  the sheet
-/

namespace Octasm

/-! ### Rows -/

/-- What the sheet says of an instruction. -/
structure Row where
  /-- The name of the opcode. Data has none. -/
  opcode : Option String
  /-- The register whose index is added to the opcode. -/
  added : Option Register
  /-- The operands that follow the opcode. -/
  following : List Operand

/-- The bytes of a row, if there is an opcode with its name. -/
def Row.bytes? (row : Row) : Option (List Slot) :=
  match row.opcode with
  | none => some (row.following.flatMap Operand.slots)
  | some name => (Opcode.ofName? name).map fun base =>
    .byte (row.added.elim base (Opcode.inBand base)) :: row.following.flatMap Operand.slots

theorem Row.bytes?_named {name : String} {base : UInt8} (h : Opcode.ofName? name = some base)
    (added : Option Register) (ops : List Operand) :
    bytes? ⟨some name, added, ops⟩
      = some (.byte (added.elim base (Opcode.inBand base)) :: ops.flatMap Operand.slots) := by
  simp only [bytes?, h, Option.map_some]

/-- The word for a kind of operand in the names of opcodes. -/
def Kind.word : Kind → String
  | register => "REG"
  | indirect => "REGADDRESS"
  | address => "ADDRESS"
  | number => "NUMBER"
  | string => "NUMBERS"

/-- The name of an opcode: the mnemonic, the kind of an operand, and an ending. -/
def Mnemonic.opcodeName (m : Mnemonic) (k : Kind) (ending : String) : String :=
  String.ofList m.name ++ "_" ++ k.word ++ ending

/-! ### The sheet -/

namespace Instruction

/-- What may be read into a register or combined with it: all but strings. -/
def sources : List Kind := [.register, .indirect, .address, .number]

/-- What may be written besides registers. -/
def places : List Kind := [.address, .indirect]

/-- The instructions that put something into a register which is part of the opcode, with the
endings of their names. -/
def loads : List (Mnemonic × String) :=
  [(.mov, "_TO_REG_A"), (.add, "_TO_REG_A"), (.sub, "_FROM_REG_A"), (.cmp, "_WITH_REG")]

/-- The instructions that combine a register with something. -/
def combinations : List Mnemonic := [.and, .or, .xor, .shl, .shr]

/-- The instructions that take a target. -/
def jumps : List Mnemonic := [.jmp, .jc, .jnc, .jz, .jnz, .ja, .jna, .call]

/-- The instructions that take any one source. -/
def readers : List Mnemonic := [.push, .mul, .div]

/-- The instructions on one register other than `SP`, which is part of the opcode. -/
def folds : List (Mnemonic × String) := [(.push, "_A"), (.pop, "_A"), (.mul, ""), (.div, "")]

/-- The instruction sheet: the rows for a mnemonic with operands. -/
inductive Listed : Mnemonic → List Operand → Row → Prop
  /-- `DB number` -/
  | number (s : Slot) : Listed .db [.number s] ⟨none, none, [.number s]⟩
  /-- `DB "text"` -/
  | string (bytes : List UInt8) : Listed .db [.string bytes] ⟨none, none, [.string bytes]⟩
  /-- `HLT` -/
  | halt : Listed .hlt [] ⟨some "NONE", none, []⟩
  /-- `RET` -/
  | ret : Listed .ret [] ⟨some "RET", none, []⟩
  /-- `MOV reg, source` and so on -/
  | load {m : Mnemonic} {ending : String} (hm : (m, ending) ∈ loads) (r : Register) {op : Operand}
    (hop : op.kind ∈ sources) :
    Listed m [.register r, op] ⟨some (m.opcodeName op.kind ending), some r, [op]⟩
  /-- `MOV place, reg` -/
  | store {op : Operand} (hop : op.kind ∈ places) (r : Register) :
    Listed .mov [op, .register r]
      ⟨some (Mnemonic.mov.opcodeName .register ("_TO_" ++ op.kind.word ++ "_A")), some r, [op]⟩
  /-- `MOV place, number` -/
  | assign {op : Operand} (hop : op.kind ∈ places) (s : Slot) :
    Listed .mov [op, .number s]
      ⟨some (Mnemonic.mov.opcodeName .number ("_TO_" ++ op.kind.word)), none, [op, .number s]⟩
  /-- `AND reg, source` and so on -/
  | combine {m : Mnemonic} (hm : m ∈ combinations) (r : Register) {op : Operand}
    (hop : op.kind ∈ sources) :
    Listed m [.register r, op]
      ⟨some (m.opcodeName op.kind "_WITH_REG"), none, [.register r, op]⟩
  /-- `INC reg` and `DEC reg` -/
  | step {m : Mnemonic} (hm : m ∈ [.inc, .dec]) (r : Register) :
    Listed m [.register r] ⟨some (m.opcodeName .register "_A"), some r, []⟩
  /-- `JMP reg` and so on -/
  | jumpThrough {m : Mnemonic} (hm : m ∈ jumps) (r : Register) :
    Listed m [.register r] ⟨some (m.opcodeName .indirect ""), none, [.register r]⟩
  /-- `JMP number` and so on -/
  | jump {m : Mnemonic} (hm : m ∈ jumps) (s : Slot) :
    Listed m [.number s] ⟨some (m.opcodeName .address ""), none, [.number s]⟩
  /-- `PUSH reg` and so on, without `SP` -/
  | fold {m : Mnemonic} {ending : String} (hm : (m, ending) ∈ folds) {r : Register} (hr : r ≠ .sp) :
    Listed m [.register r] ⟨some (m.opcodeName .register ending), some r, []⟩
  /-- `PUSH source` and so on -/
  | read {m : Mnemonic} (hm : m ∈ readers) {op : Operand} (hop : op.kind ∈ sources.tail) :
    Listed m [op] ⟨some (m.opcodeName op.kind ""), none, [op]⟩
  /-- `NOT reg` -/
  | not (r : Register) : Listed .not [.register r] ⟨some "NOT_REG", none, [.register r]⟩

end Instruction

/-! ### The numbers behind the names -/

namespace Form

open Instruction

/-- The table has a layout for some kinds of operands, with the number of an opcode's name. -/
def Numbered (m : Mnemonic) (kinds : List Kind) (name : String) (layout : UInt8 → Layout) : Prop :=
  (layout? m kinds).isSome ∧ layout? m kinds = (Opcode.ofName? name).map layout

instance (m : Mnemonic) (kinds : List Kind) (name : String) (layout : UInt8 → Layout) :
    Decidable (Numbered m kinds name layout) :=
  inferInstanceAs (Decidable (_ ∧ _))

theorem Numbered.exists_base {m : Mnemonic} {kinds : List Kind} {name : String}
    {layout : UInt8 → Layout} (h : Numbered m kinds name layout) :
    ∃ base, Opcode.ofName? name = some base ∧ layout? m kinds = some (layout base) := by
  obtain ⟨hsome, heq⟩ := h
  rw [heq, Option.isSome_map] at hsome
  obtain ⟨base, hbase⟩ := Option.isSome_iff_exists.mp hsome
  rw [hbase] at heq
  exact ⟨base, hbase, heq⟩

/-- The numbers of the table are those behind the names of the sheet, shape by shape. -/
theorem numbered :
    (Numbered .hlt [] "NONE" .fixed ∧ Numbered .ret [] "RET" .fixed) ∧
    (∀ p ∈ loads, ∀ k ∈ sources, Numbered p.1 [.register, k] (p.1.opcodeName k p.2)
      fun base => .firstSelects base 5) ∧
    (∀ k ∈ places, Numbered .mov [k, .register]
      (Mnemonic.mov.opcodeName .register ("_TO_" ++ k.word ++ "_A"))
      fun base => .secondSelects base 5) ∧
    (∀ k ∈ places, Numbered .mov [k, .number]
      (Mnemonic.mov.opcodeName .number ("_TO_" ++ k.word)) .fixed) ∧
    (∀ m ∈ combinations, ∀ k ∈ sources,
      Numbered m [.register, k] (m.opcodeName k "_WITH_REG") .fixed) ∧
    (∀ m ∈ [Mnemonic.inc, Mnemonic.dec], Numbered m [.register] (m.opcodeName .register "_A")
      fun base => .firstSelects base 5) ∧
    (∀ m ∈ jumps, Numbered m [.register] (m.opcodeName .indirect "") .fixed ∧
      Numbered m [.number] (m.opcodeName .address "") .fixed) ∧
    (∀ p ∈ folds, Numbered p.1 [.register] (p.1.opcodeName .register p.2)
      fun base => .firstSelects base 4) ∧
    (∀ m ∈ readers, ∀ k ∈ sources.tail, Numbered m [k] (m.opcodeName k "") .fixed) ∧
    Numbered .not [.register] "NOT_REG" .fixed := by
  decide +kernel

/-- Every form of the table is of a shape that the sheet has. Where a form leaves out `SP`, its band
has four members. -/
theorem shape_of_mem_table : ∀ f ∈ table,
    (f.mnemonic = .db ∧ (f.kinds = [.number] ∨ f.kinds = [.string])) ∨
    (f.mnemonic = .hlt ∨ f.mnemonic = .ret) ∧ f.kinds = [] ∨
    (f.mnemonic ∈ loads.map Prod.fst ∨ f.mnemonic ∈ combinations) ∧
      (∃ k ∈ sources, f.kinds = [.register, k]) ∨
    f.mnemonic = .mov ∧ (∃ k ∈ places, f.kinds = [k, .register] ∨ f.kinds = [k, .number]) ∨
    (f.mnemonic ∈ [.inc, .dec] ∨ f.mnemonic = .not) ∧ f.kinds = [.register] ∨
    f.mnemonic ∈ jumps ∧ (f.kinds = [.register] ∨ f.kinds = [.number]) ∨
    f.mnemonic ∈ folds.map Prod.fst ∧ f.kinds = [.register] ∧
      (f.layout.slots? [.register .sp]).isNone ∨
    f.mnemonic ∈ readers ∧ (∃ k ∈ sources.tail, f.kinds = [k]) := by
  decide +kernel

end Form

/-! ### Listed instructions and their bytes -/

theorem Register.toNat_index_lt (r : Register) : r.index.toNat < 5 := by
  cases r <;> decide

theorem Register.toNat_index_lt_of_ne {r : Register} (hr : r ≠ .sp) : r.index.toNat < 4 := by
  cases r with
  | sp => exact absurd rfl hr
  | _ => decide

namespace Instruction

open Form

variable {m : Mnemonic} {ops : List Operand} {row : Row} {name : String} {r : Register} {k : Kind}
  {op : Operand} {slots : List Slot}

theorem slots?_of_layout? {l : Layout} (h : layout? m (ops.map Operand.kind) = some l) :
    slots? ⟨m, ops⟩ = l.slots? ops := by
  simp only [slots?, h, Option.bind_eq_bind, Option.bind_some]

/-- An opcode by itself, and all operands behind it. -/
theorem exists_bytes_fixed (h : Numbered m (ops.map Operand.kind) name .fixed) :
    ∃ slots, Row.bytes? ⟨some name, none, ops⟩ = some slots ∧ slots? ⟨m, ops⟩ = some slots := by
  obtain ⟨base, hname, hl⟩ := h.exists_base
  exact ⟨_, Row.bytes?_named hname none ops, by rw [slots?_of_layout? hl]; rfl⟩

/-- A register of a band is selected if the band is wide enough. -/
theorem select?_eq {base : UInt8} {width : Nat} (hr : r.index.toNat < width) :
    Layout.select? base width r = some (.byte (Opcode.inBand base r)) := by
  rw [Layout.select?, if_pos hr]

/-- An opcode with the first operand in it. -/
theorem exists_bytes_first {width : Nat} (hr : r.index.toNat < width)
    (h : Numbered m (.register :: ops.map Operand.kind) name fun base => .firstSelects base width) :
    ∃ slots, Row.bytes? ⟨some name, some r, ops⟩ = some slots ∧
      slots? ⟨m, .register r :: ops⟩ = some slots := by
  obtain ⟨base, hname, hl⟩ := h.exists_base
  refine ⟨_, Row.bytes?_named hname (some r) ops, ?_⟩
  rw [slots?_of_layout? hl, Layout.slots?, select?_eq hr]
  rfl

/-- An opcode with the second operand in it. -/
theorem exists_bytes_second {width : Nat} (hr : r.index.toNat < width)
    (h : Numbered m [op.kind, .register] name fun base => .secondSelects base width) :
    ∃ slots, Row.bytes? ⟨some name, some r, [op]⟩ = some slots ∧
      slots? ⟨m, [op, .register r]⟩ = some slots := by
  obtain ⟨base, hname, hl⟩ := h.exists_base
  refine ⟨_, Row.bytes?_named hname (some r) [op], ?_⟩
  rw [slots?_of_layout? hl, Layout.slots?, select?_eq hr, List.flatMap_singleton]
  rfl

/-- **A listed instruction has bytes,** and they are those of its row. -/
theorem Listed.exists_bytes (h : Listed m ops row) :
    ∃ slots, row.bytes? = some slots ∧ slots? ⟨m, ops⟩ = some slots := by
  obtain ⟨⟨hhalt, hret⟩, hload, hstore, hassign, hcombine, hstep, hjump, hfold, hread, hnot⟩ :=
    numbered
  cases h with
  | number s => exact ⟨_, rfl, rfl⟩
  | string bytes => exact ⟨_, rfl, rfl⟩
  | halt => exact exists_bytes_fixed hhalt
  | ret => exact exists_bytes_fixed hret
  | load hm r hop => exact exists_bytes_first (Register.toNat_index_lt r) (hload _ hm _ hop)
  | store hop r => exact exists_bytes_second (Register.toNat_index_lt r) (hstore _ hop)
  | assign hop s => exact exists_bytes_fixed (hassign _ hop)
  | combine hm r hop => exact exists_bytes_fixed (hcombine _ hm _ hop)
  | step hm r => exact exists_bytes_first (Register.toNat_index_lt r) (hstep _ hm)
  | jumpThrough hm r => exact exists_bytes_fixed (hjump _ hm).1
  | jump hm s => exact exists_bytes_fixed (hjump _ hm).2
  | fold hm hr => exact exists_bytes_first (Register.toNat_index_lt_of_ne hr) (hfold _ hm)
  | read hm hop => exact exists_bytes_fixed (hread _ hm _ hop)
  | not r => exact exists_bytes_fixed hnot

/-! ### Instructions with bytes are listed -/

theorem exists_register_of_kind (h : op.kind = .register) : ∃ r, op = .register r := by
  cases op with
  | register r => exact ⟨r, rfl⟩
  | _ => cases h

theorem exists_number_of_kind (h : op.kind = .number) : ∃ s, op = .number s := by
  cases op with
  | number s => exact ⟨s, rfl⟩
  | _ => cases h

theorem exists_string_of_kind (h : op.kind = .string) : ∃ bytes, op = .string bytes := by
  cases op with
  | string bytes => exact ⟨bytes, rfl⟩
  | _ => cases h

theorem exists_register_of_kinds (h : ops.map Operand.kind = [.register]) :
    ∃ r, ops = [.register r] := by
  obtain ⟨op, rfl, hop⟩ := List.map_eq_singleton_iff.mp h
  obtain ⟨r, rfl⟩ := exists_register_of_kind hop
  exact ⟨r, rfl⟩

theorem exists_number_of_kinds (h : ops.map Operand.kind = [.number]) :
    ∃ s, ops = [.number s] := by
  obtain ⟨op, rfl, hop⟩ := List.map_eq_singleton_iff.mp h
  obtain ⟨s, rfl⟩ := exists_number_of_kind hop
  exact ⟨s, rfl⟩

theorem exists_operands_of_kinds {l : Kind} (h : ops.map Operand.kind = [k, l]) :
    ∃ op₁ op₂, ops = [op₁, op₂] ∧ op₁.kind = k ∧ op₂.kind = l := by
  obtain ⟨op₁, rest, rfl, hk, hrest⟩ := List.map_eq_cons_iff.mp h
  obtain ⟨op₂, rfl, hl⟩ := List.map_eq_singleton_iff.mp hrest
  exact ⟨op₁, op₂, rfl, hk, hl⟩

theorem exists_register_and_of_kinds (h : ops.map Operand.kind = [.register, k]) :
    ∃ r op, ops = [.register r, op] ∧ op.kind = k := by
  obtain ⟨first, op, rfl, hfirst, hop⟩ := exists_operands_of_kinds h
  obtain ⟨r, rfl⟩ := exists_register_of_kind hfirst
  exact ⟨r, op, rfl, hop⟩

/-- **An instruction with bytes is listed.** -/
theorem exists_listed (h : slots? ⟨m, ops⟩ = some slots) : ∃ row, Listed m ops row := by
  obtain ⟨l, hl, hs⟩ := Option.bind_eq_some_iff.mp h
  have hshape := shape_of_mem_table _ (mem_table_of_layout? hl)
  dsimp only at hshape
  -- one case for each shape of the table's forms
  rcases hshape with
    ⟨rfl, hk | hk⟩ | ⟨rfl | rfl, hk⟩ | ⟨hm | hm, k, hsource, hk⟩ | ⟨rfl, k, hplace, hk | hk⟩ |
    ⟨hm | rfl, hk⟩ | ⟨hm, hk | hk⟩ | ⟨hm, hk, hsp⟩ | ⟨hm, k, hsource, hk⟩
  · obtain ⟨s, rfl⟩ := exists_number_of_kinds hk
    exact ⟨_, .number s⟩
  · obtain ⟨op, rfl, hop⟩ := List.map_eq_singleton_iff.mp hk
    obtain ⟨bytes, rfl⟩ := exists_string_of_kind hop
    exact ⟨_, .string bytes⟩
  · rw [List.map_eq_nil_iff.mp hk]
    exact ⟨_, .halt⟩
  · rw [List.map_eq_nil_iff.mp hk]
    exact ⟨_, .ret⟩
  · obtain ⟨r, op, rfl, rfl⟩ := exists_register_and_of_kinds hk
    obtain ⟨⟨_, ending⟩, hload, rfl⟩ := List.mem_map.mp hm
    exact ⟨_, .load hload r hsource⟩
  · obtain ⟨r, op, rfl, rfl⟩ := exists_register_and_of_kinds hk
    exact ⟨_, .combine hm r hsource⟩
  · obtain ⟨op, second, rfl, rfl, hsecond⟩ := exists_operands_of_kinds hk
    obtain ⟨r, rfl⟩ := exists_register_of_kind hsecond
    exact ⟨_, .store hplace r⟩
  · obtain ⟨op, second, rfl, rfl, hsecond⟩ := exists_operands_of_kinds hk
    obtain ⟨s, rfl⟩ := exists_number_of_kind hsecond
    exact ⟨_, .assign hplace s⟩
  · obtain ⟨r, rfl⟩ := exists_register_of_kinds hk
    exact ⟨_, .step hm r⟩
  · obtain ⟨r, rfl⟩ := exists_register_of_kinds hk
    exact ⟨_, .not r⟩
  · obtain ⟨r, rfl⟩ := exists_register_of_kinds hk
    exact ⟨_, .jumpThrough hm r⟩
  · obtain ⟨s, rfl⟩ := exists_number_of_kinds hk
    exact ⟨_, .jump hm s⟩
  · obtain ⟨r, rfl⟩ := exists_register_of_kinds hk
    obtain ⟨⟨_, ending⟩, hfold, rfl⟩ := List.mem_map.mp hm
    -- the band has no member for `SP`
    have hr : r ≠ .sp := by
      rintro rfl
      rw [Option.isNone_iff_eq_none.mp hsp] at hs
      cases hs
    exact ⟨_, .fold hfold hr⟩
  · obtain ⟨op, rfl, rfl⟩ := List.map_eq_singleton_iff.mp hk
    exact ⟨_, .read hm hsource⟩

/-! ### The table and the sheet -/

/-- The bytes of an instruction are those of its rows in the sheet. -/
theorem slots?_eq_some_iff_listed :
    slots? ⟨m, ops⟩ = some slots ↔ ∃ row, Listed m ops row ∧ row.bytes? = some slots := by
  have hbytes : ∀ {row}, Listed m ops row → slots? ⟨m, ops⟩ = row.bytes? := by
    intro row hrow
    obtain ⟨slots, hrow, hslots⟩ := hrow.exists_bytes
    rw [hslots, hrow]
  constructor
  · intro h
    obtain ⟨row, hrow⟩ := exists_listed h
    exact ⟨row, hrow, (hbytes hrow).symm.trans h⟩
  · rintro ⟨row, hrow, hslots⟩
    exact (hbytes hrow).trans hslots

/-- The instructions without bytes are those that the sheet does not list. -/
theorem slots?_eq_none_iff_listed : slots? ⟨m, ops⟩ = none ↔ ∀ row, ¬ Listed m ops row := by
  constructor
  · intro h row hrow
    obtain ⟨slots, -, hslots⟩ := hrow.exists_bytes
    rw [h] at hslots
    cases hslots
  · intro h
    refine Option.eq_none_iff_forall_ne_some.mpr fun slots hslots => ?_
    obtain ⟨row, hrow⟩ := exists_listed hslots
    exact h row hrow

end Instruction

end Octasm
