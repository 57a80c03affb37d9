import Octasm.Proofs.Fallible
import Octasm.Proofs.Instruction.Sheet

/-!
# The encoder's answers

A mnemonic with two tokens, each of which may be missing and may be any text, has one answer: bytes
or a fault. `Answers` lists the answers in the order in which the encoder comes to them. What counts
as listed is decided by the instruction sheet, so this is all that a programmer has to know: how
many operands there have to be, what is wrong with a token, and what the sheet says.

Operands are counted before a surplus token is looked at, but only as far as the mnemonic goes: the
first token of a mnemonic with one operand is classified before the second is found to be too many,
and behind `HLT` and `RET` a second token without a first is not noticed.

## Main definitions

* `Mnemonic.bare`, `Mnemonic.unary`, `Mnemonic.binary`: the mnemonics by their operands
* `Instruction.Answers`: the answers of the encoder

## Main results

* `Instruction.Answers.encode_eq`: the encoder gives these answers
* `Instruction.exists_answers`: there is always one
* `Instruction.encode_eq_iff_answers`: the encoder gives these answers and no others
-/

namespace Octasm

namespace Mnemonic

/-- The mnemonics without operands. -/
def bare : List Mnemonic := [hlt, ret]

/-- The mnemonics with one operand. -/
def unary : List Mnemonic :=
  [db, inc, dec, jmp, jc, jnc, jz, jnz, ja, jna, call, push, pop, mul, div, not]

/-- The mnemonics with two operands. -/
def binary : List Mnemonic := [mov, add, sub, cmp, and, or, xor, shl, shr]

theorem mem_bare_or_unary_or_binary (m : Mnemonic) : m ∈ bare ∨ m ∈ unary ∨ m ∈ binary := by
  cases m <;> decide

theorem arity_of_mem_bare : ∀ m ∈ bare, m.arity = 0 := by decide

theorem arity_of_mem_unary : ∀ m ∈ unary, m.arity = 1 := by decide

theorem arity_of_mem_binary : ∀ m ∈ binary, m.arity = 2 := by decide

end Mnemonic

namespace Instruction

open Mnemonic

/-- The answers of the encoder to a mnemonic with two tokens. Faults name the mnemonic by `name`. -/
inductive Answers (m : Mnemonic) (name : Text) :
    Option Text → Option Text → Except Fault (List Slot) → Prop
  /-- There is an operand where none may be. -/
  | superfluous (hm : m ∈ bare) (token : Text) (second : Option Text) :
    Answers m name (some token) second (.error (.tooManyOperands name))
  /-- The opcode by itself. -/
  | bare (hm : m ∈ bare) {row : Row} (hrow : Listed m [] row) {slots : List Slot}
    (hslots : row.bytes? = some slots) (second : Option Text) :
    Answers m name none second (.ok slots)
  /-- The first operand is missing. -/
  | missing (hm : m ∈ unary ∨ m ∈ binary) (second : Option Text) :
    Answers m name none second (.error (.unsupportedOperands name))
  /-- The first token is no operand. -/
  | unclassified (hm : m ∈ unary ∨ m ∈ binary) {token : Text} {f : Fault}
    (htoken : Operand.ofText token = .error f) (second : Option Text) :
    Answers m name (some token) second (.error f)
  /-- The first token is an operand and the second is one too many, whatever it is. -/
  | surplus (hm : m ∈ unary) {token : Text} {op : Operand}
    (htoken : Operand.ofText token = .ok op) (other : Text) :
    Answers m name (some token) (some other) (.error (.tooManyOperands name))
  /-- One operand that the sheet lists. -/
  | unary (hm : m ∈ unary) {token : Text} {op : Operand} (htoken : Operand.ofText token = .ok op)
    {row : Row} (hrow : Listed m [op] row) {slots : List Slot} (hslots : row.bytes? = some slots) :
    Answers m name (some token) none (.ok slots)
  /-- One operand that the sheet does not list. -/
  | unaryUnlisted (hm : m ∈ Mnemonic.unary) {token : Text} {op : Operand}
    (htoken : Operand.ofText token = .ok op) (hrow : ∀ row, ¬ Listed m [op] row) :
    Answers m name (some token) none (.error (.unsupportedOperands name))
  /-- The first token is an operand and the second operand is missing. -/
  | secondMissing (hm : m ∈ binary) {token : Text} {op : Operand}
    (htoken : Operand.ofText token = .ok op) :
    Answers m name (some token) none (.error (.unsupportedOperands name))
  /-- The first token is an operand and the second is none. -/
  | secondUnclassified (hm : m ∈ binary) {token other : Text} {op : Operand} {f : Fault}
    (htoken : Operand.ofText token = .ok op) (hother : Operand.ofText other = .error f) :
    Answers m name (some token) (some other) (.error f)
  /-- Two operands that the sheet lists. -/
  | binary (hm : m ∈ binary) {token other : Text} {op₁ op₂ : Operand}
    (htoken : Operand.ofText token = .ok op₁) (hother : Operand.ofText other = .ok op₂)
    {row : Row} (hrow : Listed m [op₁, op₂] row) {slots : List Slot}
    (hslots : row.bytes? = some slots) :
    Answers m name (some token) (some other) (.ok slots)
  /-- Two operands that the sheet does not list. -/
  | binaryUnlisted (hm : m ∈ Mnemonic.binary) {token other : Text} {op₁ op₂ : Operand}
    (htoken : Operand.ofText token = .ok op₁) (hother : Operand.ofText other = .ok op₂)
    (hrow : ∀ row, ¬ Listed m [op₁, op₂] row) :
    Answers m name (some token) (some other) (.error (.unsupportedOperands name))

variable {m : Mnemonic} {spelling token other : Text} {first second : Option Text}
  {ops : List Operand} {op op₁ op₂ : Operand} {f : Fault} {slots : List Slot} {row : Row}
  {r : Except Fault (List Slot)}

/-! ### From operands to bytes -/

theorem encode_of_classify_error (h : classify m.arity spelling.upper first second = .error f) :
    encode m spelling first second = .error f :=
  Fallible.bind_eq_error_iff.mpr (.inl h)

theorem encode_of_listed (h : classify m.arity spelling.upper first second = .ok ops)
    (hrow : Listed m ops row) (hslots : row.bytes? = some slots) :
    encode m spelling first second = .ok slots := by
  refine Fallible.bind_eq_ok_iff.mpr ⟨ops, h, ?_⟩
  rw [slots?_eq_some_iff_listed.mpr ⟨row, hrow, hslots⟩]

theorem encode_of_unlisted (h : classify m.arity spelling.upper first second = .ok ops)
    (hrow : ∀ row, ¬ Listed m ops row) :
    encode m spelling first second = .error (.unsupportedOperands spelling.upper) := by
  refine Fallible.bind_eq_error_iff.mpr (.inr ⟨ops, h, ?_⟩)
  rw [slots?_eq_none_iff_listed.mpr hrow]

/-! ### From tokens to operands -/

theorem classify_one (name : Text) (htoken : Operand.ofText token = .ok op) :
    classify 1 name (some token) none = .ok [op] := by
  simp only [classify, required, htoken]
  rfl

theorem classify_one_surplus (name : Text) (htoken : Operand.ofText token = .ok op) :
    classify 1 name (some token) (some other) = .error (.tooManyOperands name) := by
  simp only [classify, required, htoken]
  rfl

theorem classify_two (name : Text) (htoken : Operand.ofText token = .ok op₁)
    (hother : Operand.ofText other = .ok op₂) :
    classify 2 name (some token) (some other) = .ok [op₁, op₂] := by
  simp only [classify, required, htoken, hother]
  rfl

theorem classify_two_missing (name : Text) (htoken : Operand.ofText token = .ok op) :
    classify 2 name (some token) none = .error (.unsupportedOperands name) := by
  simp only [classify, required, htoken]
  rfl

theorem classify_two_error (name : Text) (htoken : Operand.ofText token = .ok op)
    (hother : Operand.ofText other = .error f) :
    classify 2 name (some token) (some other) = .error f := by
  simp only [classify, required, htoken, hother]
  rfl

/-- What a mnemonic with operands makes of the first token does not depend on their number. -/
theorem classify_first_error (hm : m ∈ unary ∨ m ∈ binary) {name : Text}
    (h : required name first = .error f) : classify m.arity name first second = .error f := by
  rcases hm with hm | hm
  · rw [arity_of_mem_unary m hm, classify, h]
    rfl
  · rw [arity_of_mem_binary m hm]
    simp only [classify, h]
    rfl

/-! ### All answers -/

/-- The encoder gives every answer that is listed. -/
theorem Answers.encode_eq (h : Answers m spelling.upper first second r) :
    encode m spelling first second = r := by
  cases h with
  | superfluous hm token =>
    refine encode_of_classify_error ?_
    rw [arity_of_mem_bare m hm]
    rfl
  | bare hm hrow hslots =>
    refine encode_of_listed ?_ hrow hslots
    rw [arity_of_mem_bare m hm]
    rfl
  | missing hm => exact encode_of_classify_error (classify_first_error hm rfl)
  | unclassified hm htoken => exact encode_of_classify_error (classify_first_error hm htoken)
  | surplus hm htoken other =>
    refine encode_of_classify_error ?_
    rw [arity_of_mem_unary m hm, classify_one_surplus _ htoken]
  | unary hm htoken hrow hslots =>
    refine encode_of_listed ?_ hrow hslots
    rw [arity_of_mem_unary m hm, classify_one _ htoken]
  | unaryUnlisted hm htoken hrow =>
    refine encode_of_unlisted ?_ hrow
    rw [arity_of_mem_unary m hm, classify_one _ htoken]
  | secondMissing hm htoken =>
    refine encode_of_classify_error ?_
    rw [arity_of_mem_binary m hm, classify_two_missing _ htoken]
  | secondUnclassified hm htoken hother =>
    refine encode_of_classify_error ?_
    rw [arity_of_mem_binary m hm, classify_two_error _ htoken hother]
  | binary hm htoken hother hrow hslots =>
    refine encode_of_listed ?_ hrow hslots
    rw [arity_of_mem_binary m hm, classify_two _ htoken hother]
  | binaryUnlisted hm htoken hother hrow =>
    refine encode_of_unlisted ?_ hrow
    rw [arity_of_mem_binary m hm, classify_two _ htoken hother]

/-- The sheet lists operands, with bytes, or it does not. -/
theorem listed_or_not (m : Mnemonic) (ops : List Operand) :
    (∃ row slots, Listed m ops row ∧ row.bytes? = some slots) ∨ ∀ row, ¬ Listed m ops row := by
  refine (Classical.em (∃ row, Listed m ops row)).imp (fun ⟨row, hrow⟩ => ?_) not_exists.mp
  obtain ⟨slots, hslots, -⟩ := hrow.exists_bytes
  exact ⟨row, slots, hrow, hslots⟩

/-- There is an answer to all tokens of all mnemonics. -/
theorem exists_answers (m : Mnemonic) (name : Text) (first second : Option Text) :
    ∃ r, Answers m name first second r := by
  have hgroup := mem_bare_or_unary_or_binary m
  cases first with
  | none =>
    rcases hgroup with hm | hm
    · have hrow : ∃ row, Listed m [] row := by
        rcases List.mem_pair.mp hm with rfl | rfl
        · exact ⟨_, .halt⟩
        · exact ⟨_, .ret⟩
      obtain ⟨row, hrow⟩ := hrow
      obtain ⟨slots, hslots, -⟩ := hrow.exists_bytes
      exact ⟨_, .bare hm hrow hslots second⟩
    · exact ⟨_, .missing hm second⟩
  | some token =>
    rcases hgroup with hm | hm
    · exact ⟨_, .superfluous hm token second⟩
    cases htoken : Operand.ofText token with
    | error f => exact ⟨_, .unclassified hm htoken second⟩
    | ok op =>
      rcases hm with hm | hm
      · cases second with
        | some other => exact ⟨_, .surplus hm htoken other⟩
        | none =>
          rcases listed_or_not m [op] with ⟨row, slots, hrow, hslots⟩ | hrow
          · exact ⟨_, .unary hm htoken hrow hslots⟩
          · exact ⟨_, .unaryUnlisted hm htoken hrow⟩
      · cases second with
        | none => exact ⟨_, .secondMissing hm htoken⟩
        | some other =>
          cases hother : Operand.ofText other with
          | error f => exact ⟨_, .secondUnclassified hm htoken hother⟩
          | ok op₂ =>
            rcases listed_or_not m [op, op₂] with ⟨row, slots, hrow, hslots⟩ | hrow
            · exact ⟨_, .binary hm htoken hother hrow hslots⟩
            · exact ⟨_, .binaryUnlisted hm htoken hother hrow⟩

/-- **The encoder realises the instruction sheet.** It answers a mnemonic in any spelling with any
two tokens as `Answers` says, and in no other way: with the bytes of the sheet's row if the number
of operands is right, all tokens are operands and the sheet lists them, and else with the first
fault. -/
theorem encode_eq_iff_answers (m : Mnemonic) (spelling : Text) (first second : Option Text)
    (r : Except Fault (List Slot)) :
    encode m spelling first second = r ↔ Answers m spelling.upper first second r := by
  refine ⟨fun h => ?_, Answers.encode_eq⟩
  obtain ⟨r', hr'⟩ := exists_answers m spelling.upper first second
  rw [← h, hr'.encode_eq]
  exact hr'

example : encode .add "Add".toList (some "sp".toList) (some "[B-2]".toList)
    = .ok [.byte 42, .byte 241] := by
  rfl

end Instruction

end Octasm
