import Mathlib
import Octasm.Proofs.Fallible
import Octasm.Proofs.Instruction.Relabel
import Octasm.Proofs.Literal.Offset
import Octasm.Proofs.Statement.Name
import Octasm.Proofs.Text.Character

/-!
# Operand tokens in another case

Names may be written in any case: registers, labels, and the register of an offset. Numbers may not
(`0x1B` is a number and `0X1B` is none), and neither may characters. Whether a token can be raised or
lowered without a change of its meaning is settled by its first two characters, and `Token.folds`
reads it off them.

Each reader of names folds case by itself, so there is one lemma for each: two spellings of one name
are read alike. All of them rest on one fact about characters. Two characters with one capital are
equal or both letters, so a character that is no letter is the same in both spellings.

Readers keep the spelling of the source, in references and in faults. *Alike* therefore means equal
once all names are raised, and `Fallible.Related` carries it through computations that can fail.

## Main definitions

* `Token.folds`, `Token.Alike`: tokens that differ in the case of a name at most
* `Fault.raised`, `Slot.raised`: names in capitals
* `Fault.Alike`, `Operand.Alike`: equal once names are in capitals

## Main results

* `Token.shape_of_folds`: a token that may change its case is a name, or a bracketed word
* `Offset.ofText_alike`, `Operand.inBrackets_alike`: the readers of bracketed words
* `Operand.ofText_alike`: the operands of tokens that are alike
-/

namespace Octasm

/-! ### Names -/

namespace Text

variable {c d : Char} {s t u : Text}

theorem sameName_cons_iff : SameName (c :: t) (d :: u) ↔ c.toUpper = d.toUpper ∧ SameName t u := by
  simp only [SameName, upper_cons, List.cons.injEq]

/-- The empty name has one spelling. -/
theorem SameName.eq_nil (h : SameName [] u) : u = [] := List.map_eq_nil_iff.mp (Eq.symm h)

/-- Another spelling has as many characters. -/
theorem SameName.exists_cons (h : SameName (c :: t) u) :
    ∃ d v, u = d :: v ∧ c.toUpper = d.toUpper ∧ SameName t v := by
  cases u with
  | nil => cases h
  | cons d v =>
    obtain ⟨hcd, htv⟩ := sameName_cons_iff.mp h
    exact ⟨d, v, rfl, hcd, htv⟩

/-- Another spelling falls into the same parts. -/
theorem SameName.exists_append (h : SameName (s ++ t) u) :
    ∃ v w, u = v ++ w ∧ SameName s v ∧ SameName t w := by
  have hu : u.map Char.toUpper = upper s ++ upper t := (Eq.symm h).trans (upper_append s t)
  obtain ⟨v, w, rfl, hv, hw⟩ := List.map_eq_append_iff.mp hu
  exact ⟨v, w, rfl, hv.symm, hw.symm⟩

theorem SameName.exists_concat (h : SameName (t ++ [c]) u) :
    ∃ v d, u = v ++ [d] ∧ SameName t v ∧ c.toUpper = d.toUpper := by
  obtain ⟨v, w, rfl, hv, hw⟩ := h.exists_append
  obtain ⟨d, x, rfl, hcd, hx⟩ := hw.exists_cons
  rw [hx.eq_nil]
  exact ⟨v, d, rfl, hv, hcd⟩

/-- What holds of a character in every spelling holds of all characters in every spelling. -/
theorem all_congr {p : Char → Bool} (hp : ∀ {c d : Char}, c.toUpper = d.toUpper → p c = p d)
    (h : SameName t u) : t.all p = u.all p := by
  induction t generalizing u with
  | nil => rw [h.eq_nil]
  | cons c t ih =>
    obtain ⟨d, v, rfl, hcd, htv⟩ := h.exists_cons
    rw [List.all_cons, List.all_cons, hp hcd, ih htv]

theorem isName_congr (h : SameName t u) : isName t = isName u := by
  cases t with
  | nil => rw [h.eq_nil]
  | cons c t =>
    obtain ⟨d, v, rfl, hcd, htv⟩ := h.exists_cons
    rw [isName, isName, isNameHead_congr hcd, all_congr isWord_congr htv]

/-- Digits are the same in every spelling. -/
theorem SameName.eq_of_all_isDigit (h : SameName t u) (hdigits : t.all Char.isDigit = true) :
    t = u := by
  induction t generalizing u with
  | nil => rw [h.eq_nil]
  | cons c t ih =>
    obtain ⟨d, v, rfl, hcd, htv⟩ := h.exists_cons
    rw [List.all_cons, Bool.and_eq_true] at hdigits
    rcases eq_or_isAlpha hcd with rfl | ⟨hc, -⟩
    · rw [ih htv hdigits.2]
    · cases hdigits.1.symm.trans (isDigit_eq_false_of_isAlpha hc)

end Text

theorem Register.ofText?_congr {t u : Text} (h : Text.SameName t u) :
    Register.ofText? t = Register.ofText? u := by
  simp only [Register.ofText?, show t.upper = u.upper from h]

/-! ### Names in capitals -/

/-- The fault with its names in capitals. -/
def Fault.raised : Fault → Fault
  | .unknownMnemonic name => .unknownMnemonic name.upper
  | .duplicateLabel name => .duplicateLabel name.upper
  | .reservedLabel name => .reservedLabel name.upper
  | .malformedNumber token => .malformedNumber token.upper
  | .tooManyOperands mnemonic => .tooManyOperands mnemonic.upper
  | .unsupportedOperands mnemonic => .unsupportedOperands mnemonic.upper
  | .undefinedLabel name => .undefinedLabel name.upper
  | .labelOutOfRange name address => .labelOutOfRange name.upper address
  | f => f

/-- Faults of one kind, with one number and with spellings of one name. -/
def Fault.Alike (f g : Fault) : Prop := f.raised = g.raised

theorem Fault.Alike.refl (f : Fault) : f.Alike f := rfl

/-- The slot with its name in capitals. -/
def Slot.raised : Slot → Slot
  | .byte b => .byte b
  | .label name => .label name.upper

theorem Slot.raised_byte (b : UInt8) : raised (.byte b) = .byte b := rfl

/-- Operands that differ in the spelling of a label at most. -/
def Operand.Alike (o p : Operand) : Prop := o.mapSlots Slot.raised = p.mapSlots Slot.raised

theorem Operand.Alike.refl (o : Operand) : o.Alike o := rfl

/-! ### Tokens -/

namespace Token

/-- May the case of the token be changed? It starts neither with a quote, nor with a digit, nor with
a bracket and a digit. -/
def folds : Text → Bool
  | [] => true
  | c :: t =>
    !(c == '"' || c == '\'' || c.isDigit || (c == '[' && t.head?.any Char.isDigit))

/-- Tokens that are equal, or equal in capitals if their case may be changed. -/
def Alike (t u : Text) : Prop := t = u ∨ folds t = true ∧ Text.SameName t u

/-- A token that is found in some text. -/
def Occurs (token : Text) : Prop := ∃ t rest, ofText? t = some (token, rest)

/-- A bracketed token starts with a word. -/
theorem exists_of_bracketed? {t token rest : Text} (h : bracketed? t = some (token, rest)) :
    ∃ c inside, token = '[' :: c :: inside ++ [']'] ∧ Text.isWord c = true := by
  rw [bracketed?] at h
  split at h
  · cases h
  · rename_i c word hword
    have hmem : c ∈ t.takeWhile Text.isWord := by
      rw [hword]
      exact List.mem_cons_self ..
    have hc : Text.isWord c = true := List.all_eq_true.mp List.all_takeWhile c hmem
    simp only at h
    split at h
    · obtain ⟨rfl, rfl⟩ := Prod.mk.inj (Option.some.inj h)
      exact ⟨c, word ++ (signedDigits (t.dropWhile Text.isWord)).1, rfl, hc⟩
    · cases h

/-- A quoted token starts with its quote. -/
theorem exists_of_quoted? {quote : Char} {t token rest : Text}
    (h : quoted? quote t = some (token, rest)) : ∃ inside, token = quote :: inside := by
  cases t with
  | nil => cases h
  | cons c t =>
    rw [quoted?] at h
    split at h
    · cases h
    · obtain ⟨x, -, hx⟩ := Option.map_eq_some_iff.mp h
      exact ⟨_, (congrArg Prod.fst hx).symm⟩

/-- A token that may change its case is a name, or a bracketed word that starts with no digit. -/
theorem shape_of_folds {token : Text} (h : Occurs token) (hfolds : folds token = true) :
    token.isName = true ∨
      ∃ c t, token = '[' :: c :: t ++ [']'] ∧ (c.isAlpha = true ∨ c = '_') := by
  obtain ⟨t, rest, ht⟩ := h
  rw [ofText?.eq_def] at ht
  split at ht
  · cases ht
  · obtain ⟨c, inside, rfl, hc⟩ := exists_of_bracketed? ht
    refine Or.inr ⟨c, inside, rfl, ?_⟩
    simp_all [folds, Text.isWord, Char.isAlphanum]
  · obtain ⟨inside, rfl⟩ := exists_of_quoted? ht
    simp [folds] at hfolds
  · obtain ⟨inside, rfl⟩ := exists_of_quoted? ht
    simp [folds] at hfolds
  · split at ht
    · rename_i hhead
      obtain ⟨rfl, -⟩ := Prod.mk.inj (Option.some.inj ht)
      refine Or.inl ?_
      have hword : ∀ u : Text, (u.takeWhile Text.isWord).all Text.isWord = true :=
        fun u => List.all_takeWhile
      simp_all [folds, isBareHead, Text.isName, Text.isNameHead, Char.isAlphanum]
    · cases ht

end Token

/-! ### Numbers -/

/-- A word that starts with a letter or an underscore is no number in any radix. -/
theorem Number.ofText_eq_error {c : Char} {t : Text} (hc : c.isAlpha = true ∨ c = '_') :
    ofText (c :: t) = .error (.malformedNumber (c :: t)) := by
  refine ofText_eq_error_iff.mpr ⟨fun sign n hn => ?_, rfl⟩
  obtain ⟨d, u, heq, hd⟩ := hn.exists_cons
  cases heq
  rcases hc with hc | rfl
  · exact not_begins_of_isAlpha hc hd
  · revert hd
    decide

/-! ### Offsets -/

namespace Offset

open Fallible

variable {r : Register} {sign : Int} {t u rest : Text}

/-- **An opening** is the same in every spelling of the base. A sign is no letter. -/
theorem Opens.exists_of_sameName (hopens : Opens t r sign rest) (h : Text.SameName t u) :
    ∃ rest', Opens u r sign rest' ∧ Text.SameName rest rest' := by
  cases hopens with
  | plus hbase =>
    obtain ⟨base, v, rfl, hname, hv⟩ := h.exists_append
    obtain ⟨c, rest', rfl, hc, hrest⟩ := hv.exists_cons
    obtain rfl := Text.eq_of_toUpper_eq (by decide) hc.symm
    exact ⟨rest', .plus (hname.symm.trans hbase) rest', hrest⟩
  | minus hbase =>
    obtain ⟨base, v, rfl, hname, hv⟩ := h.exists_append
    obtain ⟨c, rest', rfl, hc, hrest⟩ := hv.exists_cons
    obtain rfl := Text.eq_of_toUpper_eq (by decide) hc.symm
    exact ⟨rest', .minus (hname.symm.trans hbase) rest', hrest⟩

theorem magnitude?_congr (h : Text.SameName t u) : magnitude? t = magnitude? u := by
  have hempty : t.isEmpty = u.isEmpty := by
    cases t with
    | nil => rw [h.eq_nil]
    | cons c t =>
      obtain ⟨d, v, rfl, -⟩ := h.exists_cons
      rfl
  have hall : t.all Char.isDigit = u.all Char.isDigit := Text.all_congr Text.isDigit_congr h
  rw [magnitude?, magnitude?, hempty, hall]
  split
  · rename_i hdigits
    rw [h.eq_of_all_isDigit (hall.trans (Bool.and_eq_true_iff.mp hdigits).2)]
  · rfl

/-- **Offsets** are read alike. -/
theorem ofText_alike (h : Text.SameName t u) :
    Related Fault.Alike Eq (ofText t) (ofText u) := by
  by_cases hopens : ∃ r sign rest, Opens t r sign rest
  · obtain ⟨r, sign, rest, hopens⟩ := hopens
    obtain ⟨rest', hopens', hrest⟩ := hopens.exists_of_sameName h
    rw [ofText_of_opens hopens, ofText_of_opens hopens', magnitude?_congr hrest]
    cases magnitude? rest' with
    | none => exact .error (congrArg Fault.malformedNumber h)
    | some m => exact .refl Fault.Alike.refl (fun _ => rfl) _
  · have hnone : ∀ r sign rest, ¬ Opens u r sign rest := by
      intro r sign rest hu
      obtain ⟨rest', ht, -⟩ := hu.exists_of_sameName h.symm
      exact hopens ⟨r, sign, rest', ht⟩
    rw [ofText_of_not_opens fun r sign rest ht => hopens ⟨r, sign, rest, ht⟩,
      ofText_of_not_opens hnone]
    exact .ok rfl

end Offset

/-! ### Operands -/

namespace Operand

open Fallible

variable {t u : Text}

/-- **Names** are read alike. -/
theorem plain_alike (h : Text.SameName t u) (hname : t.isName = true) :
    Related Fault.Alike Alike (plain t) (plain u) := by
  rw [plain, plain, ← Register.ofText?_congr h]
  cases Register.ofText? t with
  | some r => exact .ok (.refl _)
  | none =>
    rw [if_pos hname, if_pos (Text.isName_congr h ▸ hname)]
    exact .ok (congrArg (fun name => number (.label name)) h)

/-- **Bracketed words** that start with no digit are read alike. -/
theorem inBrackets_alike {c : Char} (h : Text.SameName (c :: t) u)
    (hc : c.isAlpha = true ∨ c = '_') :
    Related Fault.Alike Alike (inBrackets (c :: t)) (inBrackets u) := by
  rw [inBrackets, inBrackets, ← Register.ofText?_congr h, ← Text.isName_congr h]
  cases Register.ofText? (c :: t) with
  | some r => exact .ok (.refl _)
  | none =>
    by_cases hname : Text.isName (c :: t) = true
    · rw [if_pos hname, if_pos hname]
      exact .ok (congrArg (fun name => address (.label name)) h)
    · rw [if_neg hname, if_neg hname]
      refine (Offset.ofText_alike h).bind fun x y hxy => ?_
      obtain rfl := hxy
      cases x with
      | some packed => exact .ok (.refl _)
      | none =>
        -- what is neither a register nor a name nor an offset is no number either
        obtain ⟨d, v, rfl, hcd, -⟩ := h.exists_cons
        have hd : d.isAlpha = true ∨ d = '_' := by
          rcases Text.eq_or_isAlpha hcd with rfl | ⟨-, hd⟩
          · exact hc
          · exact Or.inl hd
        simp only [numberByte, Number.ofText_eq_error hc, Number.ofText_eq_error hd]
        exact .error (congrArg Fault.malformedNumber h)

/-- **Tokens that are alike** are the same operand, but for the spelling of a label. -/
theorem ofText_alike (ht : Token.Occurs t) (h : Token.Alike t u) :
    Related Fault.Alike Alike (ofText t) (ofText u) := by
  rcases h with rfl | ⟨hfolds, h⟩
  · exact .refl Fault.Alike.refl Alike.refl _
  · rcases Token.shape_of_folds ht hfolds with hname | ⟨c, inside, rfl, hc⟩
    · rw [ofText_of_isName hname, ofText_of_isName (Text.isName_congr h ▸ hname)]
      exact plain_alike h hname
    · obtain ⟨d, v, rfl, hopen, hv⟩ := h.exists_cons
      obtain ⟨w, e, rfl, hw, hclose⟩ := hv.exists_concat
      obtain rfl := Text.eq_of_toUpper_eq (by decide) hopen.symm
      obtain rfl := Text.eq_of_toUpper_eq (by decide) hclose.symm
      rw [← List.cons_append, ofText_bracketed, ofText_bracketed]
      exact inBrackets_alike hw hc

end Operand

end Octasm
