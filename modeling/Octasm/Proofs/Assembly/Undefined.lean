import Octasm.Proofs.Assembly.Link
import Octasm.Proofs.Assembly.Log
import Octasm.Proofs.Operand.Label
import Octasm.Proofs.Statement.Name

/-!
# Undefined labels

References are accepted before anybody knows whether their label is declared, and linking reports
the first that is not. That report can always be acted on: the name may be declared in a line of its
own, at any point and under any index, and then no reference to it is reported again.

Two things could be in the way. The name in the report might be one that no label can have, since
references are read by other readers than declarations are; `Tracks.declarable` says that no state
holds such a reference. And the label might get lost in what follows; but the table only grows.

## Main definitions

* `Assembly.Declared`: what a declaration changes

## Main results

* `Assembly.address?_run`: a label that is bound stays where it is
* `Assembly.Tracks.declarable`: the references of a state are to names that a label may have
* `Assembly.addLine_declaration`: such a name is declared by a line of its own
* `Assembly.addLine_undefined`: every undefined label can be declared
-/

namespace Octasm

namespace Assembly

variable {a b : Assembly} {name : Text} {k : Nat}

/-! ### Labels that are bound -/

theorem address?_declare {label : Option Text} (hd : a.declare label = .ok b)
    (h : a.labels.address? name = some k) : b.labels.address? name = some k := by
  obtain ⟨-, rfl⟩ := declare_eq_ok_iff.mp hd
  dsimp only
  rw [Labels.address?_append, h, Option.some_or]

theorem labels_emit (a : Assembly) (line : Nat) (e : Emission) :
    (a.emit line e).labels = a.labels := rfl

theorem Added.address?_eq_some {line : Nat} {t : Text} {fault : Option Fault}
    (hadd : Added a line t b fault) (h : a.labels.address? name = some k) :
    b.labels.address? name = some k := by
  cases hadd with
  | malformed => exact h
  | undeclared => exact h
  | unencoded _ hd _ => exact address?_declare hd h
  | accepted _ hd _ =>
    rw [labels_emit]
    exact address?_declare hd h

/-- **A label that is bound** stays where it is, whatever lines are added. -/
theorem address?_run (h : a.labels.address? name = some k) (calls : List Call) :
    (a.run calls).labels.address? name = some k := by
  induction calls generalizing a with
  | nil => exact h
  | cons c calls ih => exact ih ((added_addLine a c.index c.text).address?_eq_some h)

/-! ### References -/

/-- An undefined label has a reference in the code and no place in the table. -/
theorem of_link_eq_undefinedLabel (h : a.link = .error (.undefinedLabel name)) :
    .label name ∈ a.code ∧ a.labels.address? name = none := by
  obtain ⟨before, s, after, hcode, hs, -⟩ := link_eq_error_iff.mp h
  obtain ⟨other, rfl, ⟨hnone, hf⟩ | ⟨k, -, -, hf⟩⟩ := resolve_eq_error_iff.mp hs
  · obtain rfl := Fault.undefinedLabel.inj hf
    refine ⟨?_, hnone⟩
    rw [hcode]
    exact List.mem_append_right _ (List.mem_cons_self ..)
  · cases hf

/-- A label that is bound is defined in every spelling. -/
theorem link_ne_undefinedLabel (h : a.labels.address? name = some k) {other : Text}
    (hother : Text.SameName other name) : a.link ≠ .error (.undefinedLabel other) := by
  intro hlink
  have hnone := (of_link_eq_undefinedLabel hlink).2
  rw [Labels.address?_congr hother, h] at hnone
  cases hnone

/-- **The references of a state** are to names that a label may have. -/
theorem Tracks.declarable {log : List Call} (h : Tracks log a) (hname : .label name ∈ a.code) :
    name.Declarable := by
  rw [h.code] at hname
  obtain ⟨c, -, hc⟩ := List.mem_flatMap.mp hname
  exact Line.declarable_of_mem_slots hc

/-! ### Declarations -/

/-- A name has been declared in a line of its own: it is bound to the end of the code, nothing is
added there, and the line has an empty span. -/
structure Declared (a : Assembly) (line : Nat) (name : Text) (b : Assembly) : Prop where
  code : b.code = a.code
  sourceMap : b.sourceMap = a.sourceMap
  spans : b.spans = Span.record a.spans line ⟨a.position, a.position⟩
  entries : b.labels.entries = a.labels.entries ++ [(name, a.position)]
  bound : b.labels.address? name = some a.position
  others : ∀ other, ¬ Text.SameName other name →
    b.labels.address? other = a.labels.address? other

/-- **A name that a label may have** and that is not bound yet is declared by a line of its own. -/
theorem addLine_declaration (hname : name.Declarable) (hnew : a.labels.address? name = none)
    (line : Nat) : ∃ b, a.addLine line (name ++ [':']) = (b, none) ∧ Declared a line name b := by
  have hd : a.declare (some name) = .ok
      { a with labels := ⟨a.labels.entries ++ [(name, a.position)]⟩ } := by
    refine declare_eq_ok_iff.mpr ⟨fun other hother => ?_, rfl⟩
    obtain rfl := Option.some.inj hother
    exact ⟨hnew, hname.unreserved⟩
  have hadd : Added a line (name ++ [':']) _ none :=
    .accepted (Statement.ofText_declaration hname.isName) hd rfl
  refine ⟨_, hadd.addLine_eq, List.append_nil _, rfl, rfl, rfl, ?_, fun other hother => ?_⟩
  -- the new entry is the last, so it is looked at when no other entry has the name
  · have hlast : (Labels.mk [(name, a.position)]).address? name = some a.position := by
      simp [Labels.address?]
    rw [labels_emit, Labels.address?_append, hnew, hlast, Option.none_or]
  · have hlast : (Labels.mk [(name, a.position)]).address? other = none := by
      refine Labels.address?_eq_none_iff.mpr fun x hx hsame => ?_
      rw [List.mem_singleton.mp hx] at hsame
      exact hother hsame.symm
    rw [labels_emit, Labels.address?_append, hlast, Option.or_none]

/-- **Every undefined label can be declared.** If any calls, accepted or refused, lead to a state in
which a label is undefined, then a line that declares the name is accepted there under any index.
It binds the name and changes neither the code nor the source map nor any other label, and from then
on the name is not reported again, in no spelling and whatever lines follow. -/
theorem addLine_undefined {calls : List Call} (line : Nat)
    (h : (run .empty calls).link = .error (.undefinedLabel name)) :
    ∃ b, (run .empty calls).addLine line (name ++ [':']) = (b, none) ∧
      Declared (run .empty calls) line name b ∧
      ∀ later other, Text.SameName other name →
        (b.run later).link ≠ .error (.undefinedLabel other) := by
  obtain ⟨hreference, hnew⟩ := of_link_eq_undefinedLabel h
  have hname : name.Declarable := (Tracks.empty.run calls).declarable hreference
  obtain ⟨b, hb, hdeclared⟩ := addLine_declaration hname hnew line
  refine ⟨b, hb, hdeclared, fun later other hother => ?_⟩
  exact link_ne_undefinedLabel (address?_run hdeclared.bound later) hother

/-- A jump to an undefined label, and its declaration under the same index. -/
theorem addLine_undefined_jump :
    ∃ b, (run .empty [⟨0, "JMP end".toList⟩]).addLine 0 ("end".toList ++ [':']) = (b, none) ∧
      Declared (run .empty [⟨0, "JMP end".toList⟩]) 0 "end".toList b ∧
      ∀ later other, Text.SameName other "end".toList →
        (b.run later).link ≠ .error (.undefinedLabel other) :=
  addLine_undefined 0 (by rfl)

end Assembly

end Octasm
