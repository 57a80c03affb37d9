import Mathlib.Data.List.TakeWhile
import Octasm.Proofs.Assembly.Link
import Octasm.Proofs.Operand.Token
import Octasm.Proofs.Statement.Name

/-!
# References to labels

A label may be used as a number, `JMP loop`, and as the place of one, `MOV A, [table]`. The classifier
of operands takes every name in both places. The reader of tokens is stricter: between brackets it
looks for word characters only, and a dot is none. So a name with a dot can be declared and jumped to,
but a line with the name in brackets ends at the bracket for the reader, and the operand is missing.

## Main definitions

* `Text.jumpTo`, `Text.moveFrom`: a line for each of the two places
* `Assembly.AddsReference`: a line asks for an instruction that refers to a label

## Main results

* `Token.ofText?_of_isName`, `Token.bracketed?_of_isName`: names as operand tokens
* `Assembly.link_emit`: linking with one line more
* `Assembly.addLine_reference`: where a name can be used
-/

namespace Octasm

namespace Text

/-- `JMP name` -/
def jumpTo (name : Text) : Text := 'J' :: 'M' :: 'P' :: ' ' :: name

/-- `MOV A, [name]` -/
def moveFrom (name : Text) : Text :=
  'M' :: 'O' :: 'V' :: ' ' :: 'A' :: ',' :: ' ' :: '[' :: name ++ [']']

end Text

/-! ### Names as tokens -/

namespace Token

variable {name : Text}

/-- A name is a token by itself. -/
theorem ofText?_of_isName (h : name.isName = true) : ofText? name = some (name, []) := by
  obtain ⟨c, u, rfl, hc, hu⟩ := Text.isName_iff.mp h
  have hbracket : c ≠ '[' := by
    rintro rfl
    cases hc
  have hquote : ¬ (c = '"' ∨ c = '\'') := by
    rintro (rfl | rfl) <;> cases hc
  have hbare : isBareHead c = true := by
    simp only [Text.isNameHead, Bool.or_eq_true] at hc
    rcases hc with hdot | halpha
    · simp [isBareHead, hdot]
    · simp [isBareHead, Char.isAlphanum, halpha]
  rw [ofText?_cons, if_neg hbracket, if_neg hquote, if_pos hbare,
    List.takeWhile_eq_self_iff.mpr hu, List.dropWhile_eq_nil_iff.mpr hu]

/-- Between brackets a name without a dot is a token. -/
theorem bracketed?_of_isName (h : name.isName = true) (hdot : name.head? ≠ some '.') :
    bracketed? (name ++ [']']) = some ('[' :: name ++ [']'], []) := by
  obtain ⟨c, u, rfl, hc, hu⟩ := Text.isName_iff.mp h
  have hword : ∀ d ∈ c :: u, Text.isWord d = true := by
    intro d hd
    rcases List.mem_cons.mp hd with rfl | hd
    · have hne : (d == '.') = false := by simpa using hdot
      simp only [Text.isNameHead, hne, Bool.false_or] at hc
      simp [Text.isWord, Char.isAlphanum, hc]
    · exact hu d hd
  have hclose : Text.isWord ']' = false := by decide
  rw [bracketed?, Text.takeWhile_isWord_append hword hclose,
    Text.dropWhile_isWord_append hword hclose]
  have hoffset : signedDigits [']'] = ([], [']']) := rfl
  simp only [hoffset, List.append_nil]

/-- A dot behind a bracket makes no token. -/
theorem bracketed?_eq_none (hdot : name.head? = some '.') (t : Text) :
    bracketed? (name ++ t) = none := by
  obtain ⟨u, rfl⟩ := List.head?_eq_some_iff.mp hdot
  rfl

end Token

namespace Statement

variable {name : Text}

/-- A jump to a name. -/
theorem ofText_jumpTo (h : name.isName = true) :
    ofText name.jumpTo = .ok ⟨none, some "JMP".toList, some name, none⟩ := by
  have hskip : Text.skipSeparators (' ' :: name) = name := by
    obtain ⟨c, u, rfl, hc, -⟩ := Text.isName_iff.mp h
    exact Text.skipSeparators_cons (Text.isSeparator_eq_false hc)
  have hoperands : scanOperands (' ' :: name) = (some name, none) := by
    have hfirst : scanFirst (' ' :: name) = some (name, []) := by
      rw [← Token.ofText?_of_isName h, scanFirst, hskip]
      rfl
    rw [scanOperands, hfirst]
    rfl
  have hscan : scan name.jumpTo = ⟨none, some "JMP".toList, some name, none⟩ := by
    -- up to the name the line is known, and reading it is a computation
    have hparts : scan name.jumpTo = ⟨none, some "JMP".toList, (scanOperands (' ' :: name)).1,
      (scanOperands (' ' :: name)).2⟩ := rfl
    rw [hparts, hoperands]
  rw [ofText_of_isEmpty_eq_false (by rw [hscan]; rfl), hscan]

/-- A move to a register: what is read behind the comma is the token there, if there is one. -/
theorem ofText_moveFrom (name : Text) :
    ofText name.moveFrom = .ok ⟨none, some "MOV".toList, some "A".toList,
      (Token.bracketed? (name ++ [']'])).map Prod.fst⟩ := rfl

/-- A name that a label may have is a jump target. -/
theorem asks_jump (h : name.Declarable) :
    Asks ⟨none, some "JMP".toList, some name, none⟩ ⟨.jmp, [.number (.label name)]⟩ := by
  have hname : Operand.ofText name = .ok (.number (.label name)) :=
    Operand.ofText_eq_ok_iff.mpr (.label h)
  exact ⟨_, rfl, rfl, Fallible.bind_eq_ok_iff.mpr ⟨_, hname, rfl⟩⟩

/-- Between brackets it is an address. -/
theorem asks_move (h : name.Declarable) :
    Asks ⟨none, some "MOV".toList, some "A".toList, some ('[' :: name ++ [']'])⟩
      ⟨.mov, [.register .a, .address (.label name)]⟩ := by
  have hname : Operand.ofText ('[' :: name ++ [']']) = .ok (.address (.label name)) :=
    Operand.ofText_eq_ok_iff.mpr (.location h)
  have hoperands : Instruction.classify 2 "MOV".toList (some "A".toList)
      (some ('[' :: name ++ [']'])) = .ok [.register .a, .address (.label name)] :=
    Fallible.bind_eq_ok_iff.mpr ⟨_, rfl, Fallible.bind_eq_ok_iff.mpr ⟨_, hname, rfl⟩⟩
  exact ⟨_, rfl, rfl, hoperands⟩

end Statement

/-! ### Adding the line -/

namespace Assembly

variable {a : Assembly} {line : Nat} {t name : Text} {s : Statement} {i : Instruction}
  {slots : List Slot} {e : Emission} {p : Program} {bytes : List UInt8} {opcode : UInt8}

/-- A line without a label adds the bytes of the instruction that it asks for. -/
theorem addLine_of_asks (hs : Statement.ofText t = .ok s) (hlabel : s.label = none)
    (hi : s.Asks i) (hslots : i.slots? = some slots) (a : Assembly) (line : Nat) :
    a.addLine line t = (a.emit line ⟨slots, !i.mnemonic.isDirective⟩, none) := by
  have hd : a.declare s.label = .ok a := by rw [hlabel, declare]
  have he := Statement.emission_eq_ok_iff.mpr (Or.inr ⟨i, slots, hi, hslots, rfl⟩)
  have hadd : Added a line t _ none := .accepted hs hd he
  exact hadd.addLine_eq

/-- With one line more, linking puts the bytes of the line behind the others. -/
theorem link_emit (h : a.link = .ok p)
    (he : List.Forall₂ (fun s b => resolve a.labels s = .ok b) e.slots bytes) :
    ∃ q, (a.emit line e).link = .ok q ∧ q.code = p.code ++ bytes := by
  obtain ⟨hcode, -⟩ := link_eq_ok_iff.mp h
  refine ⟨⟨p.code ++ bytes, _, _, _⟩, link_eq_ok_iff.mpr ⟨?_, rfl, rfl, rfl⟩, rfl⟩
  exact List.rel_append hcode he

/-- The line asks for an instruction, which is an opcode and a reference to a label; where the label
is bound within reach, linking puts its address behind the opcode. -/
structure AddsReference (a : Assembly) (line : Nat) (t : Text) (i : Instruction) (opcode : UInt8)
    (name : Text) : Prop where
  asks : ∃ s, Statement.ofText t = .ok s ∧ s.Asks i
  accepted : ∃ b, a.addLine line t = (b, none) ∧
    b.code = a.code ++ [.byte opcode, .label name] ∧ b.labels = a.labels ∧
    ∀ p k, a.link = .ok p → a.labels.address? name = some k → k ≤ 255 →
      ∃ q, b.link = .ok q ∧ q.code = p.code ++ [opcode, UInt8.ofNat k]

theorem addsReference_of_asks (hs : Statement.ofText t = .ok s) (hlabel : s.label = none)
    (hi : s.Asks i) (hslots : i.slots? = some [.byte opcode, .label name]) (a : Assembly)
    (line : Nat) : AddsReference a line t i opcode name := by
  refine ⟨⟨s, hs, hi⟩, _, addLine_of_asks hs hlabel hi hslots a line, rfl, rfl, ?_⟩
  intro p k hp hk hle
  refine link_emit hp (.cons rfl (.cons ?_ .nil))
  exact resolve_eq_ok_iff.mpr (Or.inr ⟨name, k, rfl, hk, hle, rfl⟩)

/-- **Where a name can be used.** Whatever can be declared can be jumped to, in every state and under
every index. The contents of its place can be read by name if the name does not start with a dot. If
it does, the line is refused for its operands and nothing changes. -/
theorem addLine_reference {labels labels' : Labels} {k : Nat}
    (hs : Statement.ofText (name ++ [':']) = .ok s) (hlabel : s.label = some name)
    (hdeclare : labels.declare name k = .ok labels') (a : Assembly) (line : Nat) :
    AddsReference a line name.jumpTo ⟨.jmp, [.number (.label name)]⟩ 103 name ∧
      (name.head? ≠ some '.' → AddsReference a line name.moveFrom
        ⟨.mov, [.register .a, .address (.label name)]⟩ 6 name) ∧
      (name.head? = some '.' →
        a.addLine line name.moveFrom = (a, some (.unsupportedOperands "MOV".toList))) := by
  obtain ⟨⟨-, hreserved⟩, -⟩ := Labels.declare_eq_ok_iff.mp hdeclare
  have hname : name.Declarable := ⟨Statement.isName_of_label hs hlabel, hreserved⟩
  refine ⟨?_, fun hdot => ?_, fun hdot => ?_⟩
  · exact addsReference_of_asks (Statement.ofText_jumpTo hname.isName) rfl
      (Statement.asks_jump hname) rfl a line
  · have htoken := Token.bracketed?_of_isName hname.isName hdot
    have hmove := Statement.ofText_moveFrom name
    rw [htoken] at hmove
    exact addsReference_of_asks hmove rfl (Statement.asks_move hname) rfl a line
  · have hmove := Statement.ofText_moveFrom name
    rw [Token.bracketed?_eq_none hdot] at hmove
    exact (Added.unencoded hmove rfl rfl).addLine_eq

/-- A name without a dot can be used in both places. -/
theorem addLine_reference_table :
    AddsReference .empty 0 (Text.jumpTo "table".toList) ⟨.jmp, [.number (.label "table".toList)]⟩
        103 "table".toList ∧
      AddsReference .empty 0 (Text.moveFrom "table".toList)
        ⟨.mov, [.register .a, .address (.label "table".toList)]⟩ 6 "table".toList := by
  have hs : Statement.ofText ("table".toList ++ [':'])
      = .ok { Statement.empty with label := some "table".toList } := by rfl
  have hdeclare : Labels.empty.declare "table".toList 0 = .ok ⟨[("table".toList, 0)]⟩ := by rfl
  obtain ⟨hjump, hmove, -⟩ := addLine_reference hs rfl hdeclare .empty 0
  exact ⟨hjump, hmove (by decide)⟩

/-- A name with a dot is declared, and the line that uses it between brackets is refused. -/
theorem assemble_dotted_reference :
    Statement.ofText (".data".toList ++ [':'])
        = .ok { Statement.empty with label := some ".data".toList } ∧
      Labels.empty.declare ".data".toList 0 = .ok ⟨[(".data".toList, 0)]⟩ ∧
      assemble ".data: HLT\nMOV A, [.data]".toList
        = .error (.line 1 (.unsupportedOperands "MOV".toList)) :=
  ⟨by rfl, by rfl, by rfl⟩

end Assembly

end Octasm
