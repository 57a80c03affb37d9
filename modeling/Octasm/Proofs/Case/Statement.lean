import Octasm.Assembly
import Octasm.Proofs.Case.Operand

/-!
# Statements in another case

The parts of two statements are alike if each is there in both and is spelled alike. A label and a
mnemonic are names, so all of their spellings are alike; an operand is alike as a token.

What is known about tokens is known of tokens that a reader has found in a line, so the operands of
a line that has been read are shown to be such tokens first. After that every step from the parts to
the bytes carries *alike* on: reading a mnemonic, classifying operands, choosing a form.

## Main definitions

* `Statement.Alike`: statements with the same parts, spelled alike
* `Statement.Scanned`: the operands are tokens that have been found in a line
* `Emission.Alike`: the same bytes and references to the same names

## Main results

* `Statement.scanned_of_ofText`: the operands of a line that has been read
* `Instruction.encode_alike`: one mnemonic with operands that are alike
* `Statement.emission_alike`: statements that are alike add the same to the image
-/

namespace Octasm

open Fallible

namespace Statement

/-- Statements with the same parts, each of them spelled alike. -/
structure Alike (s s' : Statement) : Prop where
  label : Option.Rel Text.SameName s.label s'.label
  mnemonic : Option.Rel Text.SameName s.mnemonic s'.mnemonic
  first : Option.Rel Token.Alike s.first s'.first
  second : Option.Rel Token.Alike s.second s'.second

/-! ### The operands of a line -/

/-- The operands are tokens that have been found in some text. -/
structure Scanned (s : Statement) : Prop where
  first : ∀ token ∈ s.first, Token.Occurs token
  second : ∀ token ∈ s.second, Token.Occurs token

variable {t rest token : Text} {s : Statement}

theorem occurs_of_scanFirst (h : scanFirst t = some (token, rest)) : Token.Occurs token := by
  rw [scanFirst] at h
  split at h
  · exact ⟨_, _, h⟩
  · cases h

theorem occurs_of_scanSecond (h : scanSecond t = some (token, rest)) : Token.Occurs token := by
  rw [scanSecond] at h
  split at h
  · exact ⟨_, _, h⟩
  · cases h

theorem occurs_of_scanOperands :
    (∀ token ∈ (scanOperands t).1, Token.Occurs token) ∧
      ∀ token ∈ (scanOperands t).2, Token.Occurs token := by
  rw [scanOperands]
  cases hfirst : scanFirst t with
  | none => exact ⟨nofun, nofun⟩
  | some x =>
    refine ⟨fun token htoken => ?_, fun token htoken => ?_⟩
    · obtain rfl := Option.mem_some.mp htoken
      exact occurs_of_scanFirst hfirst
    · obtain ⟨y, hy, rfl⟩ := Option.map_eq_some_iff.mp htoken
      exact occurs_of_scanSecond hy

/-- **The operands of a line** that has been read are tokens that have been found there. -/
theorem scanned_of_ofText (h : ofText t = .ok s) : s.Scanned := by
  rw [eq_scan_of_ofText h]
  simp only [scan]
  split
  · have hnone : ∀ token ∈ (none : Option Text), Token.Occurs token := by simp
    exact ⟨hnone, hnone⟩
  · exact ⟨occurs_of_scanOperands.1, occurs_of_scanOperands.2⟩

end Statement

/-! ### From the operands to the bytes -/

/-- The same bytes, and references to the same names in the same places. -/
structure Emission.Alike (e e' : Emission) : Prop where
  slots : e.slots.map Slot.raised = e'.slots.map Slot.raised
  isInstruction : e.isInstruction = e'.isInstruction

namespace Instruction

variable {first first' second second' : Option Text}

/-- An operand that has to be there is there in both statements or in none. -/
theorem required_alike (name : Text) (hocc : ∀ token ∈ first, Token.Occurs token)
    (h : Option.Rel Token.Alike first first') :
    Related Fault.Alike Operand.Alike (required name first) (required name first') := by
  cases h with
  | none => exact .error (.refl _)
  | some h => exact Operand.ofText_alike (hocc _ rfl) h

section

variable (hocc : ∀ token ∈ first, Token.Occurs token)
  (hocc' : ∀ token ∈ second, Token.Occurs token)
  (hfirst : Option.Rel Token.Alike first first') (hsecond : Option.Rel Token.Alike second second')

include hocc hocc' hfirst hsecond

/-- As many operands are looked at in both statements, and those that are looked at are alike. -/
theorem classify_alike (arity : Nat) (name : Text) :
    Related Fault.Alike
      (fun ops ops' => ops.map (Operand.mapSlots Slot.raised)
        = ops'.map (Operand.mapSlots Slot.raised))
      (classify arity name first second) (classify arity name first' second') := by
  have hsome : first.isSome = first'.isSome := by cases hfirst <;> rfl
  have hsome' : second.isSome = second'.isSome := by cases hsecond <;> rfl
  rw [classify.eq_def, classify.eq_def, hsome, hsome']
  split
  · split
    · exact .error (.refl _)
    · exact .ok rfl
  · refine (required_alike name hocc hfirst).bind fun o p hop => ?_
    split
    · exact .error (.refl _)
    · exact .ok (congrArg (fun q => [q]) hop)
  · refine (required_alike name hocc hfirst).bind fun o₁ p₁ hop₁ => ?_
    refine (required_alike name hocc' hsecond).bind fun o₂ p₂ hop₂ => ?_
    exact .ok (congrArg₂ (fun q r => [q, r]) hop₁ hop₂)

/-- **One mnemonic with operands that are alike** has one form, and its bytes are alike. -/
theorem encode_alike (m : Mnemonic) {spelling spelling' : Text}
    (hspelling : Text.SameName spelling spelling') :
    Related Fault.Alike (fun slots slots' => slots.map Slot.raised = slots'.map Slot.raised)
      (encode m spelling first second) (encode m spelling' first' second') := by
  rw [encode, encode, show spelling.upper = spelling'.upper from hspelling]
  refine (classify_alike hocc hocc' hfirst hsecond m.arity _).bind fun ops ops' hops => ?_
  -- the form is chosen by the kinds, which raising the names does not change
  have hslots : (slots? ⟨m, ops⟩).map (List.map Slot.raised)
      = (slots? ⟨m, ops'⟩).map (List.map Slot.raised) := by
    rw [← slots?_mapSlots Slot.raised_byte, ← slots?_mapSlots Slot.raised_byte]
    exact congrArg (fun ops => slots? ⟨m, ops⟩) hops
  cases hx : slots? ⟨m, ops⟩ with
  | none =>
    rw [hx, Option.map_none, eq_comm, Option.map_eq_none_iff] at hslots
    rw [hslots]
    exact .error (.refl _)
  | some slots =>
    rw [hx, Option.map_some, eq_comm, Option.map_eq_some_iff] at hslots
    obtain ⟨slots', hx', hraised⟩ := hslots
    rw [hx']
    exact .ok hraised.symm

end

end Instruction

theorem Mnemonic.ofText?_congr {t u : Text} (h : Text.SameName t u) :
    Mnemonic.ofText? t = Mnemonic.ofText? u := by
  simp only [Mnemonic.ofText?, show t.upper = u.upper from h]

namespace Statement

/-- **Statements that are alike** add the same to the image. -/
theorem emission_alike {s s' : Statement} (hs : s.Scanned) (h : Alike s s') :
    Related Fault.Alike Emission.Alike s.emission s'.emission := by
  obtain ⟨label, mnemonic, first, second⟩ := s
  obtain ⟨label', mnemonic', first', second'⟩ := s'
  cases h.mnemonic with
  | none => exact .ok ⟨rfl, rfl⟩
  | @some spelling spelling' hspelling =>
    rw [emission, emission]
    simp only [Mnemonic.ofText?_congr hspelling]
    cases Mnemonic.ofText? spelling' with
    | none => exact .error (congrArg Fault.unknownMnemonic hspelling)
    | some m =>
      exact (Instruction.encode_alike hs.first hs.second h.first h.second m hspelling).bind
        fun _ _ hslots => .ok ⟨hslots, rfl⟩

end Statement

end Octasm
