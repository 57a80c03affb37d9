import Octasm.Proofs.Assembly.Link
import Octasm.Proofs.Assembly.Log

/-!
# What a refused line leaves behind

A line is refused before anything of it is added, but not before its label is bound. So there is one
thing that a refused line can leave behind, and it leaves it exactly if its label is in order and
its instruction is not: `Assembly.LeavesLabel`. In all other cases the state is the one from before
the line.

A label that is left behind may resolve a reference that was open. It never touches one that was
resolved, since it stands behind all other labels of the table and its name is new.

## Main definitions

* `Assembly.Retains`: a state holds all that an earlier one held, and at most more labels
* `Assembly.LeavesLabel`: a line is refused after its label has been bound
* `Assembly.Refused`: what is there after a refused line

## Main results

* `Assembly.Retains.address?`, `Assembly.Retains.link`: labels and references that were resolved
* `Assembly.Retains.run`: any calls that are refused
* `Assembly.addLine_refused`: one line that is refused
-/

namespace Octasm

namespace Assembly

variable {a b c : Assembly} {line : Nat} {t name : Text} {f : Fault} {k : Nat}

/-! ### States with more labels -/

/-- A state holds all that an earlier one held, with its labels in front; only labels are new. -/
structure Retains (a b : Assembly) : Prop where
  code : b.code = a.code
  sourceMap : b.sourceMap = a.sourceMap
  spans : b.spans = a.spans
  labels : a.labels.entries <+: b.labels.entries

namespace Retains

theorem refl (a : Assembly) : Retains a a := ⟨rfl, rfl, rfl, List.prefix_rfl⟩

theorem trans (h : Retains a b) (k : Retains b c) : Retains a c where
  code := k.code.trans h.code
  sourceMap := k.sourceMap.trans h.sourceMap
  spans := k.spans.trans h.spans
  labels := h.labels.trans k.labels

/-- A label that is bound stays where it is. -/
theorem address? (h : Retains a b) (hk : a.labels.address? name = some k) :
    b.labels.address? name = some k := by
  obtain ⟨more, hmore⟩ := h.labels
  have hb : b.labels = ⟨a.labels.entries ++ more⟩ := by rw [hmore]
  rw [hb, Labels.address?_append, hk, Option.some_or]

/-- A reference to a label that is bound becomes what it became before, be it a byte or a fault. -/
theorem resolve (h : Retains a b) (hk : a.labels.address? name = some k) :
    resolve b.labels (.label name) = resolve a.labels (.label name) := by
  simp only [Assembly.resolve, h.address? hk, hk]

theorem resolve_eq_ok (h : Retains a b) {s : Slot} {byte : UInt8}
    (hs : Assembly.resolve a.labels s = .ok byte) : Assembly.resolve b.labels s = .ok byte := by
  rcases resolve_eq_ok_iff.mp hs with rfl | ⟨name, k, rfl, hk, -, -⟩
  · rfl
  · rw [h.resolve hk, hs]

/-- A state that could be linked is linked to the same program, with the labels that are new. -/
theorem link (h : Retains a b) {p : Program} (hp : a.link = .ok p) :
    b.link = .ok { p with labels := b.labels.toMap } := by
  obtain ⟨hcode, hmap, -, hspans⟩ := link_eq_ok_iff.mp hp
  refine link_eq_ok_iff.mpr ⟨?_, hmap.trans h.sourceMap.symm, rfl, hspans.trans h.spans.symm⟩
  rw [h.code]
  exact hcode.imp fun _ _ => h.resolve_eq_ok

end Retains

/-! ### One line -/

/-- A line leaves its label behind: the label is accepted, and then the line is refused because
there is no such mnemonic or because the instruction has no bytes. -/
def LeavesLabel (a : Assembly) (t : Text) (f : Fault) (name : Text) : Prop :=
  ∃ s spelling, Statement.ofText t = .ok s ∧ s.label = some name ∧
    (∃ labels, a.labels.declare name a.position = .ok labels) ∧ s.mnemonic = some spelling ∧
    ((Mnemonic.ofText? spelling = none ∧ f = .unknownMnemonic spelling) ∨
      ∃ m, Mnemonic.ofText? spelling = some m ∧
        Instruction.encode m spelling s.first s.second = .error f)

/-- The state `b` is what a line that is refused in the state `a` leaves behind. -/
structure Refused (a : Assembly) (t : Text) (f : Fault) (b : Assembly) : Prop where
  retains : Retains a b
  /-- The label that is left behind is bound to the end of the code, behind all other labels. -/
  left : ∀ name, LeavesLabel a t f name →
    b.labels.entries = a.labels.entries ++ [(name, a.position)]
  /-- If none is left behind, nothing at all is. -/
  unchanged : (∀ name, ¬ LeavesLabel a t f name) → b = a
  /-- No other name gets an address or loses one. -/
  others : ∀ name, (∀ label, LeavesLabel a t f label → ¬ Text.SameName label name) →
    b.labels.address? name = a.labels.address? name
  /-- A reference to a label that was bound is resolved as before, or fails as before. -/
  references : ∀ name, a.labels.address? name ≠ none →
    resolve b.labels (.label name) = resolve a.labels (.label name)
  /-- A program that could be linked still can be, and its image is the same. -/
  link : ∀ p, a.link = .ok p → b.link = .ok { p with labels := b.labels.toMap }

/-- A line leaves one label behind at most. -/
theorem LeavesLabel.unique {name' : Text} (h : LeavesLabel a t f name)
    (h' : LeavesLabel a t f name') : name = name' := by
  obtain ⟨s, -, hs, hname, -⟩ := h
  obtain ⟨s', -, hs', hname', -⟩ := h'
  obtain rfl := Except.ok.inj (hs.symm.trans hs')
  exact Option.some.inj (hname.symm.trans hname')

/-- A label that is declared without a fault is accepted by the table. -/
theorem exists_declare (hd : a.declare (some name) = .ok b) :
    ∃ labels, a.labels.declare name a.position = .ok labels := by
  obtain ⟨labels, hlabels, -⟩ := Fallible.bind_eq_ok_iff.mp hd
  exact ⟨labels, hlabels⟩

/-- **One refused line** adds the label that it leaves behind, and nothing else. -/
theorem Added.eq_or_leavesLabel (h : Added a line t b (some f)) :
    (b = a ∧ ∀ name, ¬ LeavesLabel a t f name) ∨
      ∃ name, LeavesLabel a t f name ∧
        b = { a with labels := ⟨a.labels.entries ++ [(name, a.position)]⟩ } := by
  cases h with
  | malformed hs =>
    refine Or.inl ⟨rfl, ?_⟩
    rintro name ⟨s, -, hs', -⟩
    rw [hs] at hs'
    cases hs'
  | @undeclared s _ hs hd =>
    refine Or.inl ⟨rfl, ?_⟩
    rintro name ⟨s', -, hs', hname, ⟨labels, hlabels⟩, -⟩
    obtain rfl := Except.ok.inj (hs.symm.trans hs')
    -- a label that the table accepts is declared
    rw [hname, declare, hlabels] at hd
    cases hd
  | @unencoded s _ _ hs hd he =>
    obtain ⟨spelling, hm, hfault⟩ := Statement.emission_eq_error_iff.mp he
    cases hlabel : s.label with
    | none =>
      rw [hlabel] at hd
      refine Or.inl ⟨(Except.ok.inj hd).symm, ?_⟩
      rintro name ⟨s', -, hs', hname, -⟩
      obtain rfl := Except.ok.inj (hs.symm.trans hs')
      rw [hlabel] at hname
      cases hname
    | some name =>
      rw [hlabel] at hd
      refine Or.inr ⟨name, ⟨s, spelling, hs, hlabel, exists_declare hd, hm, hfault⟩, ?_⟩
      exact (declare_eq_ok_iff.mp hd).2

/-- A refused line leaves what was there before it. -/
theorem Added.retains (h : Added a line t b (some f)) : Retains a b := by
  rcases h.eq_or_leavesLabel with ⟨rfl, -⟩ | ⟨name, -, rfl⟩
  · exact .refl b
  · exact ⟨rfl, rfl, rfl, List.prefix_append ..⟩

/-! ### Any calls -/

/-- **Any refused calls**, however many, leave what was there before them. -/
theorem Retains.run {calls : List Call} (h : a.accepted calls = []) : Retains a (a.run calls) := by
  induction calls generalizing a with
  | nil => exact .refl a
  | cons c calls ih =>
    have hadd := added_addLine a c.index c.text
    rw [accepted] at h
    rw [Assembly.run]
    cases hb : a.addLine c.index c.text with
    | mk b fault =>
      rw [hb] at h hadd
      cases fault with
      | none => cases h
      | some f => exact hadd.retains.trans (ih h)

/-- **What a refused line leaves behind.** In every state, a line that is refused changes neither
code, source map nor spans. It leaves its own label if the table accepts it and the fault is in the
instruction, as the last one and at the end of the code; otherwise the state is unchanged.
References that could be resolved before are resolved to the same bytes. -/
theorem addLine_refused (line : Nat) (h : a.addLine line t = (b, some f)) : Refused a t f b := by
  have hadd := added_addLine a line t
  rw [h] at hadd
  refine ⟨hadd.retains, fun name hname => ?_, fun hnone => ?_, fun name hothers => ?_,
    fun name hname => ?_, fun p => hadd.retains.link⟩
  · rcases hadd.eq_or_leavesLabel with ⟨-, hnone⟩ | ⟨label, hlabel, rfl⟩
    · exact absurd hname (hnone name)
    · rw [hname.unique hlabel]
  · rcases hadd.eq_or_leavesLabel with ⟨rfl, -⟩ | ⟨label, hlabel, -⟩
    · rfl
    · exact absurd hlabel (hnone label)
  · rcases hadd.eq_or_leavesLabel with ⟨rfl, -⟩ | ⟨label, hlabel, rfl⟩
    · rfl
    · have hlast : (Labels.mk [(label, a.position)]).address? name = none := by
        refine Labels.address?_eq_none_iff.mpr fun x hx => ?_
        rw [List.mem_singleton.mp hx]
        exact hothers label hlabel
      dsimp only
      rw [Labels.address?_append, hlast, Option.or_none]
  · obtain ⟨k, hk⟩ := Option.ne_none_iff_exists'.mp hname
    exact hadd.retains.resolve hk

/-- A jump to a label that is left behind by the line that was to declare it. -/
theorem addLine_refused_label :
    (run .empty [⟨0, "JMP end".toList⟩]).addLine 1 "end: MOV A".toList
        = ({ run .empty [⟨0, "JMP end".toList⟩] with labels := ⟨[("end".toList, 2)]⟩ },
          some (.unsupportedOperands "MOV".toList)) ∧
      Refused (run .empty [⟨0, "JMP end".toList⟩]) "end: MOV A".toList
        (.unsupportedOperands "MOV".toList)
        { run .empty [⟨0, "JMP end".toList⟩] with labels := ⟨[("end".toList, 2)]⟩ } :=
  ⟨by rfl, addLine_refused 1 (by rfl)⟩

end Assembly

end Octasm
