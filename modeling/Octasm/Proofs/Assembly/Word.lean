import Octasm.Proofs.Assembly.Refusal
import Octasm.Proofs.Instruction.Answer
import Octasm.Proofs.Statement.Opening

/-!
# Instruction words that are too long

A mnemonic has at most four letters, and of a longer word the reader takes the first four without a
complaint. `PUSHED` begins as `PUSH` does, so by itself the reader would let a line pass that nobody
meant to write. It is stopped elsewhere. An operand needs a tab or a space in front of it, and right
behind the four letters there is the fifth; so no operand is read. And every mnemonic that has four
letters takes an operand. Neither fact is about words that are too long, and a mnemonic of four
letters without operands would undo the law.

## Main definitions

* `Statement.Word`: the instruction word of a line, with all of its letters
* `Statement.Cut`: the fault of a line whose word is too long

## Main results

* `Mnemonic.arity_ne_zero_of_length`: mnemonics of four letters take an operand
* `Statement.Word.scan`: what is read of a word that is too long
* `Assembly.addLine_word`: no word is cut short in a line that is accepted
-/

namespace Octasm

/-! ### Words -/

namespace Statement

variable {t word m : Text}

/-- The instruction word of a line: the letters behind its front, up to the first character that is
no letter. -/
def Word (t word : Text) : Prop :=
  word ≠ [] ∧ ∃ front rest, Opening (scan t).label front ∧ t = front ++ (word ++ rest) ∧
    (∀ c ∈ word, c.isAlpha = true) ∧ ∀ c ∈ rest.head?, c.isAlpha = false

/-- A line with an instruction word has it in front of its body. -/
theorem Word.exists_body (h : Word t word) :
    ∃ rest, body t = word ++ rest ∧ (∀ c ∈ word, c.isAlpha = true) ∧
      ∀ c ∈ rest.head?, c.isAlpha = false := by
  obtain ⟨hne, front, rest, hfront, ht, hword, hrest⟩ := h
  obtain ⟨c, w, rfl⟩ := List.exists_cons_of_ne_nil hne
  have hhead : ∀ d ∈ ((c :: w) ++ rest).head?, Text.isSeparator d = false := by
    intro d hd
    obtain rfl : c = d := Option.some.inj hd
    exact Text.isSeparator_eq_false_of_isAlpha (hword c (List.mem_cons_self ..))
  have hnone : (scan t).label = none → (scanLabel ((c :: w) ++ rest)).1 = none := by
    intro hlabel
    rw [hlabel] at hfront
    cases hfront with
    | plain hlead =>
      rw [label_scan, ht, Text.skipSeparators_append hlead, Text.skipSeparators_eq_self hhead]
        at hlabel
      exact hlabel
  refine ⟨rest, ?_, hword, hrest⟩
  rw [ht]
  exact (hfront.body_eq hhead hnone).2

/-- The letters in front of the body are the instruction word. -/
theorem word_takeWhile (h : (body t).takeWhile Char.isAlpha ≠ []) :
    Word t ((body t).takeWhile Char.isAlpha) := by
  obtain ⟨front, hfront, ht⟩ := exists_opening t
  refine ⟨h, front, (body t).dropWhile Char.isAlpha, hfront, ?_, fun c hc => ?_, fun c hc => ?_⟩
  · rw [List.takeWhile_append_dropWhile, ← ht]
  · exact List.all_eq_true.mp List.all_takeWhile c hc
  · have hhead := List.head?_dropWhile_not Char.isAlpha (body t)
    rw [Option.mem_def.mp hc] at hhead
    exact hhead

/-- The mnemonic that is read is the instruction word, or its first four letters. -/
theorem exists_word (h : (scan t).mnemonic = some m) : ∃ word, Word t word ∧ m = word.take 4 := by
  rw [scan_eq] at h
  split at h
  · cases h
  · rename_i mnemonic rest hscan
    obtain rfl := Option.some.inj h
    rw [scanMnemonic] at hscan
    split at hscan
    · cases hscan
    · rename_i hlen
      obtain ⟨hm, -⟩ := Prod.ext_iff.mp (Option.some.inj hscan)
      refine ⟨_, word_takeWhile fun hnil => hlen ?_, hm.symm⟩
      rw [hnil]
      decide

/-- **Of a word that is too long** the first four letters are read, and no operand. -/
theorem Word.scan (h : Word t word) (hlen : 5 ≤ word.length) :
    Statement.scan t = ⟨(Statement.scan t).label, some (word.take 4), none, none⟩ := by
  obtain ⟨rest, hbody, hletters, hrest⟩ := h.exists_body
  have hmnemonic : scanMnemonic (body t) = some (word.take 4, word.drop 4 ++ rest) := by
    rw [hbody]
    exact scanMnemonic_word hletters hrest (by omega)
  -- the fifth letter stands where the separator in front of an operand would be
  have hfirst : scanFirst (word.drop 4 ++ rest) = none := by
    obtain ⟨c, u, hdrop⟩ := List.exists_cons_of_ne_nil (l := word.drop 4) (by
      rw [← List.length_pos_iff, List.length_drop]
      omega)
    have hc := hletters c (List.mem_of_mem_drop (hdrop ▸ List.mem_cons_self ..))
    rw [hdrop, List.cons_append, scanFirst, List.head?_cons, Option.any_some,
      Text.isSeparator_eq_false_of_isAlpha hc]
    rfl
  have hoperands : scanOperands (word.drop 4 ++ rest) = (none, none) := by
    rw [scanOperands, hfirst]
  rw [scan_eq, hmnemonic]
  simp only [hoperands]

end Statement

/-! ### Mnemonics of four letters -/

/-- **A mnemonic of four letters takes an operand**, by each of its names. -/
theorem Mnemonic.arity_ne_zero_of_length :
    ∀ m ∈ Mnemonic.all, ∀ name ∈ m.names, name.length = 4 → m.arity ≠ 0 := by
  decide

theorem Instruction.classify_missing {arity : Nat} (h : arity ≠ 0) (name : Text) :
    classify arity name none none = .error (.unsupportedOperands name) := by
  match arity with
  | 0 => exact absurd rfl h
  | 1 => rfl
  | _ + 2 => rfl

namespace Statement

variable {s : Statement} {spelling : Text}

/-- The fault of a line of which these four letters are read and no operand: they are no mnemonic,
or one that takes operands. -/
inductive Cut (spelling : Text) : Fault → Prop
  | unknown (h : Mnemonic.ofText? spelling = none) : Cut spelling (.unknownMnemonic spelling)
  | unsupported {m : Mnemonic} (h : Mnemonic.ofText? spelling = some m) :
      Cut spelling (.unsupportedOperands spelling.upper)

theorem exists_cut (label : Option Text) (hlen : spelling.length = 4) :
    ∃ f, Cut spelling f ∧ emission ⟨label, some spelling, none, none⟩ = .error f := by
  cases hm : Mnemonic.ofText? spelling with
  | none =>
    exact ⟨_, .unknown hm, emission_eq_error_iff.mpr ⟨spelling, rfl, Or.inl ⟨hm, rfl⟩⟩⟩
  | some m =>
    have harity : m.arity ≠ 0 := by
      have hfound := List.find?_some hm
      have hlength : spelling.upper.length = 4 := by rw [Text.length_upper, hlen]
      exact Mnemonic.arity_ne_zero_of_length m m.mem_all _ (List.contains_iff_mem.mp hfound) hlength
    refine ⟨_, .unsupported hm, emission_eq_error_iff.mpr ⟨spelling, rfl, Or.inr ⟨m, hm, ?_⟩⟩⟩
    exact Instruction.encode_of_classify_error (Instruction.classify_missing harity _)

end Statement

/-! ### Adding the line -/

namespace Assembly

open Statement

variable {t word : Text}

/-- A line whose word is too long is refused, for its label or for the word. -/
theorem exists_addLine_of_long (h : Word t word) (hlen : 5 ≤ word.length) (a : Assembly)
    (line : Nat) : ∃ b f, a.addLine line t = (b, some f) ∧ Retains a b ∧
      (a.declare (scan t).label = .error f ∨
        (∃ c, a.declare (scan t).label = .ok c) ∧ Cut (word.take 4) f) := by
  have hscan := h.scan hlen
  have hs : ofText t = .ok (scan t) := ofText_of_isEmpty_eq_false (by
    rw [hscan, isEmpty, Option.isNone_some, Bool.and_false])
  cases hd : a.declare (scan t).label with
  | error f =>
    have hadd : Added a line t a (some f) := .undeclared hs hd
    exact ⟨a, f, hadd.addLine_eq, hadd.retains, Or.inl rfl⟩
  | ok b =>
    have hfour : (word.take 4).length = 4 := by
      rw [List.length_take]
      omega
    obtain ⟨f, hcut, hf⟩ := exists_cut (scan t).label hfour
    rw [← hscan] at hf
    have hadd : Added a line t b (some f) := .unencoded hs hd hf
    exact ⟨b, f, hadd.addLine_eq, hadd.retains, Or.inr ⟨⟨b, rfl⟩, hcut⟩⟩

/-- **No instruction word is cut short.** In every state and under every index, the mnemonic of a
line that is accepted is its whole instruction word. A line whose word has five or more letters is
refused, whatever its first four letters are, and nothing is added to the code. -/
theorem addLine_word (a : Assembly) (line : Nat) (t : Text) :
    (∀ s m, (a.addLine line t).2 = none → ofText t = .ok s → s.mnemonic = some m → Word t m) ∧
      ∀ word, Word t word → 5 ≤ word.length →
        ∃ b f, a.addLine line t = (b, some f) ∧ Retains a b ∧
          (a.declare (scan t).label = .error f ∨
            (∃ c, a.declare (scan t).label = .ok c) ∧ Cut (word.take 4) f) := by
  refine ⟨fun s m hnone hs hm => ?_, fun word h hlen => exists_addLine_of_long h hlen a line⟩
  rw [eq_scan_of_ofText hs] at hm
  obtain ⟨word, hword, rfl⟩ := exists_word hm
  have hle : word.length ≤ 4 := by
    by_contra hlen
    obtain ⟨b, f, hadd, -⟩ := exists_addLine_of_long hword (by omega) a line
    rw [hadd] at hnone
    cases hnone
  rw [List.take_of_length_le hle]
  exact hword

/-- A word of four letters behind a label is read whole, and a longer one is refused. -/
theorem addLine_word_push :
    (empty.addLine 0 "top: PUSH A".toList).2 = none ∧ Word "top: PUSH A".toList "PUSH".toList ∧
      Word "top: PUSHED A".toList "PUSHED".toList ∧
      ∃ b f, empty.addLine 0 "top: PUSHED A".toList = (b, some f) ∧ Retains .empty b := by
  have hnone : (empty.addLine 0 "top: PUSH A".toList).2 = none := by decide
  have hlong : Word "top: PUSHED A".toList "PUSHED".toList := word_takeWhile (by decide)
  obtain ⟨b, f, hadd, hretains, -⟩ :=
    (addLine_word .empty 0 "top: PUSHED A".toList).2 _ hlong (by decide)
  exact ⟨hnone, (addLine_word .empty 0 "top: PUSH A".toList).1 _ _ hnone rfl rfl, hlong, b, f, hadd,
    hretains⟩

end Assembly

end Octasm
