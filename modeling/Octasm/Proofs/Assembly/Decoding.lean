import Octasm.Proofs.Assembly.Denotation
import Octasm.Proofs.Instruction.Decoding
import Octasm.Proofs.Instruction.Relabel

/-!
# Reading a program back

The image of a program can be read at every address in its source map. What is read there is the
instruction of the line that the map names, with the addresses of labels in place of references,
and the bytes that are used up are those of the line's span.

This rests on three things that are proved apart. The bytes of a line stand at its offset; linking
the bytes of an instruction gives the bytes of the linked instruction; and the bytes of an
instruction without references can be read back.

## Main definitions

* `Program.Reads`: reading the image at a span gives the instruction of a line

## Main results

* `Assembly.Reads.forall₂_bytes`: the bytes of a line stand at its offset
* `Assembly.Reads.reads`: an entry of the source map is a place to read an instruction
* `uniquely_decodable`: programs, opcodes and instructions can be told apart by their bytes
-/

namespace Octasm

/-- Reading the image where a span starts gives the instruction of a line, with its references
resolved, and uses up the span. -/
def Program.Reads (p : Program) (span : Span) (t : Text) : Prop :=
  ∃ s i, Statement.ofText t = .ok s ∧ s.Asks i ∧ i.mnemonic ≠ .db ∧
    span.start < span.stop ∧ span.stop ≤ p.code.length ∧
    Instruction.decode? (p.code.drop span.start)
      = some (i.linked ⟨p.labels⟩, p.code.drop span.stop)

/-- The linked bytes of an instruction are read as the linked instruction. -/
theorem Instruction.decode?_linked {labels : Labels} {i : Instruction} {slots : List Slot}
    {bytes rest : List UInt8} (hm : i.mnemonic ≠ .db) (hslots : i.slots? = some slots)
    (hbytes : List.Forall₂ (fun s b => Assembly.resolve labels s = .ok b) slots bytes) :
    decode? (bytes ++ rest) = some (i.linked labels, rest) := by
  refine decode?_eq_some (i := i.linked labels) hm ?_
  rw [linked, slots?_mapSlots (Slot.linked_byte labels), hslots, Option.map_some,
    Assembly.map_linked_of_forall₂_resolve hbytes]

namespace Assembly

variable {ls : List Text} {a : Assembly} {p : Program} {e : Placed}

/-- A placed line is the line with its index, and its span is recorded there. -/
theorem Reads.lookup (h : Reads ls a) (hp : a.link = .ok p) (he : e ∈ place 0 (Source.calls ls)) :
    ls[e.index]? = some e.text ∧ p.spans[e.index]? = some e.span := by
  rw [Source.place_calls] at he
  obtain ⟨i, hi, rfl⟩ := List.mem_mapIdx.mp he
  refine ⟨List.getElem?_eq_getElem hi, ?_⟩
  rw [(h.denotes hp).spans, List.getElem?_mapIdx, List.getElem?_eq_getElem hi]
  rfl

/-- A line ends inside the image. -/
theorem Reads.stop_le (h : Reads ls a) (hp : a.link = .ok p)
    (he : e ∈ place 0 (Source.calls ls)) : e.stop ≤ p.code.length := by
  have hstop := (bounds_of_mem_place he).2
  rwa [Nat.zero_add, ← h.tracks.code, (link_eq_ok_iff.mp hp).1.length_eq] at hstop

/-- The bytes of a line stand at its offset. -/
theorem Reads.forall₂_bytes (h : Reads ls a) (hp : a.link = .ok p)
    (he : e ∈ place 0 (Source.calls ls)) :
    List.Forall₂ (fun s b => resolve a.labels s = .ok b) (Line.slots e.text)
      (e.span.bytes p.code) := by
  have hcode := (link_eq_ok_iff.mp hp).1
  rw [Span.bytes_of_le e.address_le_stop (h.stop_le hp he), ← slots_of_mem_place he,
    ← h.tracks.code]
  exact List.forall₂_take _ (List.forall₂_drop _ hcode)

/-- A line with an instruction can be read back. -/
theorem Reads.reads (h : Reads ls a) (hp : a.link = .ok p) (he : e ∈ place 0 (Source.calls ls))
    (hi : Line.isInstruction e.text = true) : p.Reads e.span e.text := by
  obtain ⟨s, i, hs, hasks, hm, hslots⟩ := Line.exists_asks hi
  have hstop := h.stop_le hp he
  refine ⟨s, i, hs, hasks, hm, Placed.address_lt_stop hi, hstop, ?_⟩
  have hsplit : p.code.drop e.address = e.span.bytes p.code ++ p.code.drop e.stop := by
    rw [Span.bytes_of_le e.address_le_stop hstop, Placed.span]
    have := List.take_append_drop (e.stop - e.address) (p.code.drop e.address)
    rw [List.drop_drop, Nat.add_sub_cancel' e.address_le_stop] at this
    exact this.symm
  rw [Placed.span, hsplit, h.tracks.labels_link hp]
  exact Instruction.decode?_linked hm hslots (h.forall₂_bytes hp he)

end Assembly

/-- **Programs, opcodes and instructions can be told apart by their bytes.** At every address in
the source map of a program the instruction of the line is read back. The first byte of an
instruction settles everything but the values of operands, no opcode belongs to two rows of the
table, and no instruction is the front of another. -/
theorem uniquely_decodable :
    (∀ source p, assemble source = .ok p → ∀ address line, (address, line) ∈ p.sourceMap.entries →
      ∃ t span, source.lines[line]? = some t ∧ p.spans[line]? = some span ∧
        span.start = address ∧ p.Reads span t) ∧
    (∀ (s : Statement) i e, s.Asks i → i.mnemonic ≠ .db → s.emission = .ok e →
      ∃ code operands, e.slots = .byte code :: operands ∧ operands.length ≤ 2 ∧
        Head.ofOpcode? code
          = some ⟨i.mnemonic, i.operands.map Operand.kind, i.folded?, e.slots.length⟩) ∧
    (Form.table.flatMap fun f => f.layout.opcodes).Nodup ∧
    ∀ (s s' : Statement) i i' e e', s.Asks i → s'.Asks i' → i.mnemonic ≠ .db → i'.mnemonic ≠ .db →
      s.emission = .ok e → s'.emission = .ok e' → e.slots <+: e'.slots → i = i' := by
  refine ⟨?_, ?_, Form.nodup_opcodes, ?_⟩
  · intro source p hp address line hmem
    have hend := Assembly.assembled source
    rw [hp] at hend
    cases hend with
    | linked h hlink =>
      rw [(Assembly.link_eq_ok_iff.mp hlink).2.1, h.tracks.sourceMap] at hmem
      obtain ⟨e, he, hentry⟩ := List.mem_filterMap.mp hmem
      obtain ⟨hi, hx⟩ := Placed.instruction?_eq_some_iff.mp hentry
      obtain ⟨rfl, rfl⟩ := Prod.mk.inj hx
      obtain ⟨ht, hspan⟩ := h.lookup hlink he
      exact ⟨e.text, e.span, ht, hspan, rfl, h.reads hlink he hi⟩
  · intro s i e hi hm he
    exact Instruction.exists_head hm (hi.slots?_eq_some he)
  · intro s s' i i' e e' hi hi' hm hm' he he' hprefix
    exact Instruction.eq_of_prefix hm hm' (hi.slots?_eq_some he) (hi'.slots?_eq_some he') hprefix

/-- The second instruction of a program is read back with the address of its label. -/
theorem uniquely_decodable_jump :
    ∃ p, assemble "top: INC A\n JMP TOP".toList = .ok p ∧ p.Reads ⟨1, 3⟩ " JMP TOP".toList := by
  have h : assemble "top: INC A\n JMP TOP".toList
      = .ok ⟨[73, 103, 0], ⟨[(0, 0), (1, 1)]⟩, [("top".toList, 0)], [⟨0, 1⟩, ⟨1, 3⟩]⟩ := by
    decide +kernel
  obtain ⟨t, span, ht, hspan, -, hreads⟩ := uniquely_decodable.1 _ _ h 1 1 (by decide)
  obtain rfl : t = " JMP TOP".toList := (Option.some.inj ht).symm
  obtain rfl : span = ⟨1, 3⟩ := (Option.some.inj hspan).symm
  exact ⟨_, h, hreads⟩

end Octasm
