import Octasm.Proofs.Instruction.Opcode

/-!
# Reading instructions back

The bytes of an instruction say which instruction it is. The opcode settles the row of the table,
and with it how many bytes follow and what each of them means; so no instruction is the front of
another, and `Instruction.decode?` gives back what `Instruction.slots?` was given.

References take part in this before they are resolved: two instructions whose open bytes agree have
the same references.

## Main definitions

* `Head`, `Head.ofOpcode?`: what an opcode says about its instruction
* `Instruction.folded?`: the register in the opcode

## Main results

* `Instruction.exists_head`: the first byte settles everything but the values of operands
* `Instruction.eq_of_prefix`: no instruction is the front of another
* `Instruction.decode?_eq_some`: reading the bytes of an instruction
-/

namespace Octasm

/-! ### Operands behind an opcode -/

namespace Operand

variable {op op' : Operand} {ops ops' : List Operand} {bytes rest : List UInt8} {b : UInt8}

/-- Apart from strings, every operand has one byte. -/
theorem exists_slots_eq (h : op.kind ≠ .string) : ∃ s, op.slots = [s] := by
  cases op with
  | register r => exact ⟨_, rfl⟩
  | address s => exact ⟨_, rfl⟩
  | indirect packed => exact ⟨_, rfl⟩
  | number s => exact ⟨_, rfl⟩
  | string bytes => exact absurd rfl h

/-- The kind of an operand and its byte settle the operand. -/
theorem eq_of_slots_eq (hs : op.kind ≠ .string) (hk : op.kind = op'.kind)
    (h : op.slots = op'.slots) : op = op' := by
  match op, op', hk with
  | .register r, .register r', _ =>
    have hr : r.index = r'.index := Slot.byte.inj (List.cons.inj h).1
    rw [Register.index_injective hr]
  | .address s, .address s', _ => rw [(List.cons.inj h).1]
  | .indirect p, .indirect p', _ => rw [Slot.byte.inj (List.cons.inj h).1]
  | .number s, .number s', _ => rw [(List.cons.inj h).1]
  | .string _, .string _, _ => exact absurd rfl hs

/-- The operand that a byte stands for. -/
theorem ofByte?_eq_some (hs : op.kind ≠ .string) (h : op.slots = [.byte b]) :
    ofByte? op.kind b = some op := by
  cases op with
  | string bytes => exact absurd rfl hs
  | register r =>
    cases h
    rw [kind, ofByte?, Register.ofIndex?_index, Option.map_some]
  | _ =>
    cases h
    rfl

theorem length_flatMap_slots (h : ∀ op ∈ ops, op.kind ≠ .string) :
    (ops.flatMap slots).length = ops.length := by
  induction ops with
  | nil => rfl
  | cons op ops ih =>
    obtain ⟨hop, hops⟩ := List.forall_mem_cons.mp h
    obtain ⟨s, hs⟩ := exists_slots_eq hop
    rw [List.flatMap_cons, hs, List.length_append, ih hops, List.length_singleton,
      List.length_cons, Nat.add_comm]

/-- Operands of the same kinds agree if the bytes of some are the front of those of the others. -/
theorem eq_of_flatMap_slots_prefix (hs : ∀ op ∈ ops, op.kind ≠ .string)
    (hk : ops.map kind = ops'.map kind) (h : ops.flatMap slots <+: ops'.flatMap slots) :
    ops = ops' := by
  induction ops generalizing ops' with
  | nil => rw [List.map_eq_nil_iff.mp hk.symm]
  | cons op ops ih =>
    obtain ⟨hop, hops⟩ := List.forall_mem_cons.mp hs
    cases ops' with
    | nil => cases hk
    | cons op' ops' =>
      obtain ⟨hhead, htail⟩ := List.cons.inj hk
      obtain ⟨s, hslots⟩ := exists_slots_eq hop
      have hop' : op'.kind ≠ .string := hhead ▸ hop
      obtain ⟨s', hslots'⟩ := exists_slots_eq hop'
      rw [List.flatMap_cons, List.flatMap_cons, hslots, hslots'] at h
      obtain ⟨rfl, hrest⟩ := List.cons_prefix_cons.mp h
      rw [eq_of_slots_eq hop hhead (hslots.trans hslots'.symm), ih hops htail hrest]

/-- Reading the bytes of operands gives back the operands. -/
theorem readAll?_eq_some (hs : ∀ op ∈ ops, op.kind ≠ .string)
    (h : ops.flatMap slots = bytes.map Slot.byte) :
    readAll? (ops.map kind) (bytes ++ rest) = some (ops, rest) := by
  induction ops generalizing bytes with
  | nil =>
    rw [List.map_eq_nil_iff.mp h.symm]
    rfl
  | cons op ops ih =>
    obtain ⟨hop, hops⟩ := List.forall_mem_cons.mp hs
    obtain ⟨s, hslots⟩ := exists_slots_eq hop
    rw [List.flatMap_cons, hslots, List.singleton_append] at h
    cases bytes with
    | nil => cases h
    | cons b bytes =>
      obtain ⟨rfl, htail⟩ := List.cons.inj h
      rw [List.map_cons, List.cons_append, readAll?, ofByte?_eq_some hop hslots,
        Option.bind_eq_bind, Option.bind_some, ih hops htail]
      rfl

end Operand

/-! ### Rows of the table -/

namespace Form

variable {f g : Form} {i j : Instruction} {code : UInt8} {xs ys : List Slot}
  {bytes rest : List UInt8} {ops : List Operand}

/-- An opcode of a row is read as the row says: the operands behind it, and between them the
register that the opcode stands for. -/
theorem decodeForm?_eq_some (hf : f ∈ table) (hcode : code ∈ f.layout.opcodes)
    (hops : Operand.readAll? (f.layout.followingKinds f.kinds) bytes = some (ops, rest)) :
    Instruction.decodeForm? f code bytes
      = some (⟨f.mnemonic, f.layout.unfold (f.layout.selected? code) ops⟩, rest) := by
  have hsel := fixed_or_selected f hf code hcode
  rw [Instruction.decodeForm?]
  cases hl : f.layout with
  | data =>
    rw [hl] at hcode
    cases hcode
  | fixed opcode =>
    rw [hl] at hops
    simp only [show Operand.readAll? f.kinds bytes = some (ops, rest) from hops]
    rfl
  | firstSelects base width =>
    rw [hl] at hops hsel
    obtain ⟨r, hr⟩ := Option.isSome_iff_exists.mp (hsel.resolve_left nofun)
    simp only [show Register.ofIndex? (code - base) = some r from hr,
      show Operand.readAll? f.kinds.tail bytes = some (ops, rest) from hops, hr]
    rfl
  | secondSelects base width =>
    rw [hl] at hops hsel
    obtain ⟨r, hr⟩ := Option.isSome_iff_exists.mp (hsel.resolve_left nofun)
    simp only [show Register.ofIndex? (code - base) = some r from hr,
      show Operand.readAll? f.kinds.dropLast bytes = some (ops, rest) from hops, hr]
    rfl

namespace Encodes

/-- The opcode is followed by one byte for each operand that is not folded into it. -/
theorem length_slots (h : f.Encodes i code xs) :
    xs.length = 1 + (f.layout.followingKinds f.kinds).length := by
  rw [h.slots, List.length_cons, Operand.length_flatMap_slots h.kind_ne_string, h.kinds,
    ← Layout.map_kind_following, List.length_map, Nat.add_comm]

/-- Of two instructions with one opcode neither is the front of the other, unless they are one. -/
theorem eq_of_prefix (h : f.Encodes i code xs) {code' : UInt8} (k : g.Encodes j code' ys)
    (hp : xs <+: ys) : i = j := by
  rw [h.slots, k.slots, List.cons_prefix_cons] at hp
  obtain ⟨hcode, hrest⟩ := hp
  obtain rfl := Slot.byte.inj hcode
  obtain rfl := h.unique k
  have hops : f.layout.following i.operands = f.layout.following j.operands := by
    refine Operand.eq_of_flatMap_slots_prefix h.kind_ne_string ?_ hrest
    rw [Layout.map_kind_following, Layout.map_kind_following, ← h.kinds, ← k.kinds]
  have hoperands : i.operands = j.operands := by
    rw [← h.unfold, ← k.unfold, ← h.selected, ← k.selected, hops]
  exact Instruction.ext (h.mnemonic.symm.trans k.mnemonic) hoperands

/-- Reading the bytes of an instruction gives back the instruction. -/
theorem decode?_eq_some (h : f.Encodes i code (bytes.map Slot.byte)) :
    Instruction.decode? (bytes ++ rest) = some (i, rest) := by
  cases hb : bytes with
  | nil =>
    have := h.slots
    rw [hb] at this
    cases this
  | cons b bytes =>
    have hslots := h.slots
    rw [hb, List.map_cons] at hslots
    obtain ⟨hcode, hrest⟩ := List.cons.inj hslots
    obtain rfl := Slot.byte.inj hcode
    have hread : Operand.readAll? (f.layout.followingKinds f.kinds) (bytes ++ rest)
        = some (f.layout.following i.operands, rest) := by
      rw [h.kinds, ← Layout.map_kind_following]
      exact Operand.readAll?_eq_some h.kind_ne_string hrest.symm
    have hform := decodeForm?_eq_some h.mem h.opcode hread
    rw [h.selected, h.unfold, h.mnemonic] at hform
    rw [List.cons_append, Instruction.decode?, ofOpcode?_eq_some f h.mem b h.opcode]
    exact hform

end Encodes

end Form

/-! ### Instructions -/

/-- What an opcode says about the instruction that starts with it. -/
structure Head where
  mnemonic : Mnemonic
  kinds : List Kind
  /-- The register that the opcode stands for, if it stands for one. -/
  folded : Option Register
  /-- The number of bytes, the opcode included. -/
  size : Nat
  deriving DecidableEq, Repr

/-- The head of an opcode. -/
def Head.ofOpcode? (code : UInt8) : Option Head :=
  (Form.ofOpcode? code).map fun f =>
    ⟨f.mnemonic, f.kinds, f.layout.selected? code, 1 + (f.layout.followingKinds f.kinds).length⟩

namespace Instruction

/-- The register that has no byte of its own, if there is one. -/
def folded? (i : Instruction) : Option Register :=
  (Form.layout? i.mnemonic (i.operands.map Operand.kind)).bind fun l => l.folded? i.operands

variable {i j : Instruction} {slots xs ys : List Slot} {bytes rest : List UInt8}

/-- **The first byte settles everything but the values of operands.** -/
theorem exists_head (hm : i.mnemonic ≠ .db) (h : i.slots? = some slots) :
    ∃ code operands, slots = .byte code :: operands ∧ operands.length ≤ 2 ∧
      Head.ofOpcode? code
        = some ⟨i.mnemonic, i.operands.map Operand.kind, i.folded?, slots.length⟩ := by
  obtain ⟨f, code, henc⟩ := exists_encodes hm h
  have hlen := henc.length_slots
  refine ⟨code, _, henc.slots, ?_, ?_⟩
  · have hfollow := f.layout.length_followingKinds_le f.kinds
    have hkinds := Form.length_kinds_le f henc.mem
    rw [henc.slots, List.length_cons] at hlen
    omega
  · rw [Head.ofOpcode?, Form.ofOpcode?_eq_some f henc.mem code henc.opcode, Option.map_some,
      ← hlen, henc.selected, henc.mnemonic, henc.kinds, folded?, henc.found, Option.bind_some]

/-- **No instruction is the front of another.** -/
theorem eq_of_prefix (hi : i.mnemonic ≠ .db) (hj : j.mnemonic ≠ .db) (hx : i.slots? = some xs)
    (hy : j.slots? = some ys) (hp : xs <+: ys) : i = j := by
  obtain ⟨f, code, hf⟩ := exists_encodes hi hx
  obtain ⟨g, code', hg⟩ := exists_encodes hj hy
  exact hf.eq_of_prefix hg hp

/-- **Reading the bytes of an instruction** gives back the instruction. -/
theorem decode?_eq_some (hm : i.mnemonic ≠ .db) (h : i.slots? = some (bytes.map Slot.byte)) :
    decode? (bytes ++ rest) = some (i, rest) := by
  obtain ⟨f, code, henc⟩ := exists_encodes hm h
  exact henc.decode?_eq_some

end Instruction

end Octasm
