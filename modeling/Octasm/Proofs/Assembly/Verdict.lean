import Octasm.Proofs.Assembly.FirstPass
import Octasm.Proofs.Assembly.Link
import Octasm.Proofs.Defects

/-!
# Which fault is reported

Assembling a source text fails exactly if something is wrong with it, and with the fault that
`Source.Verdict` names. The state enters once: while lines are accepted, its label table has the
labels of the lines above, so that looking a name up there is looking for a line that declares it.

## Main definitions

* `Assembly.fault?`: the fault of a result

## Main results

* `Assembly.Reads.reports`: a refused line is reported for the first of its defects
* `Assembly.Reads.not_defective`: accepted lines have none
* `Assembly.Reads.resolve_eq_error_iff`: a slot fails if it has no byte
* `assemble_verdict`: the fault of a source text, if it has one
-/

namespace Octasm

namespace Assembly

variable {ls : List Text} {a b : Assembly} {t : Text} {s : Slot} {f : Fault} {i k : Nat}

namespace Reads

/-! ### Lines -/

/-- A line that is refused after others is reported for the first of its defects. -/
theorem reports (h : Reads ls a) (hadd : Added a ls.length t b (some f)) :
    Line.Reports ls t f := by
  cases hadd with
  | malformed hs =>
    obtain rfl := Statement.eq_malformedLine_of_ofText hs
    exact ⟨0, .malformed hs, fun _ _ _ => Nat.zero_le _⟩
  | @undeclared s f hs hd =>
    obtain ⟨name, hl, ⟨hdup, rfl⟩ | ⟨hnew, hreg, rfl⟩⟩ := declare_eq_error_iff.mp hd
    · -- the label is taken, and only a line that is no statement would be reported before that
      obtain ⟨j, hj⟩ : ∃ j, Source.Declares ls j name := by
        by_contra hnone
        exact hdup (h.address?_eq_none_iff.mpr (not_exists.mp hnone))
      refine ⟨1, .duplicate hs hl hj, fun k g hg => ?_⟩
      rcases hg.of_ofText hs with ⟨rfl, -⟩ | ⟨rfl, -⟩ | ⟨rfl, -⟩ | ⟨rfl, -⟩ <;> omega
    · obtain ⟨r, hr⟩ := Option.ne_none_iff_exists'.mp hreg
      refine ⟨2, .reserved hs hl hr, fun k g hg => ?_⟩
      rcases hg.of_ofText hs with ⟨-, n, j, hn, hj⟩ | ⟨rfl, -⟩ | ⟨rfl, -⟩ | ⟨rfl, -⟩
      · obtain rfl := Option.some.inj (hl.symm.trans hn)
        exact absurd hj (h.address?_eq_none_iff.mp hnew j)
      all_goals omega
  | @unencoded s b f hs hd he =>
    -- the label has been bound, so neither of its defects is there
    obtain ⟨hlabel, -⟩ := declare_eq_ok_iff.mp hd
    have hbound : ∀ {k g}, Line.Defect ls t k g →
        (k = 3 ∧ ∃ spelling, s.mnemonic = some spelling ∧ Mnemonic.ofText? spelling = none) ∨
          (k = 4 ∧ s.emission = .error g) := by
      intro k g hg
      rcases hg.of_ofText hs with ⟨-, n, j, hn, hj⟩ | ⟨-, n, r, hn, hr⟩ | hlate
      · exact absurd hj (h.address?_eq_none_iff.mp (hlabel n hn).1 j)
      · cases (hlabel n hn).2.symm.trans hr
      · exact hlate
    obtain ⟨spelling, hm, ⟨hu, rfl⟩ | ⟨m, hk, henc⟩⟩ := Statement.emission_eq_error_iff.mp he
    · refine ⟨3, .unknown hs hm hu, fun k g hg => ?_⟩
      rcases hbound hg with ⟨rfl, -⟩ | ⟨rfl, -⟩ <;> omega
    · refine ⟨4, .rejected hs hm hk henc, fun k g hg => ?_⟩
      rcases hbound hg with ⟨-, n, hn, hu⟩ | ⟨rfl, -⟩
      · obtain rfl := Option.some.inj (hm.symm.trans hn)
        cases hk.symm.trans hu
      · exact Nat.le_refl 4

/-- No line that has been read has a defect. -/
theorem not_defective (h : Reads ls a) (i : Nat) : ¬ Source.Defective ls i := by
  rintro ⟨t, k, f, ht, hdefect⟩
  obtain ⟨hi, rfl⟩ := List.getElem?_eq_some_iff.mp ht
  obtain ⟨s, e, hs, he⟩ := h.lines (List.getElem_mem hi)
  rcases hdefect.of_ofText hs with ⟨-, name, j, hl, hj⟩ | ⟨-, name, r, hl, hr⟩ |
    ⟨-, spelling, hm, hu⟩ | ⟨-, hf⟩
  · -- the line above would declare the label a second time
    have hji : j < i := by
      obtain ⟨u, _, hu, -⟩ := hj
      have := (List.getElem?_eq_some_iff.mp hu).1
      rw [List.length_take] at this
      omega
    have hdeclares : Source.Declares ls i name :=
      ⟨ls[i], name, ht, (Line.label?_of_ofText hs).trans hl, rfl⟩
    have := h.declares_unique ((Source.declares_take_iff hji).mp hj) hdeclares
    omega
  · have hentry : (name, Source.offset ls i) ∈ a.labels.entries :=
      h.mem_entries_iff.mpr ⟨i, ls[i], ht, (Line.label?_of_ofText hs).trans hl, rfl⟩
    cases (h.tracks.labels_unreserved _ hentry).symm.trans hr
  · have hf := Statement.emission_eq_error_iff.mpr ⟨spelling, hm, Or.inl ⟨hu, rfl⟩⟩
    cases he.symm.trans hf
  · cases he.symm.trans hf

/-! ### References -/

/-- With the label table of the whole text, a slot fails if it has no byte. -/
theorem resolve_eq_error_iff (h : Reads ls a) :
    resolve a.labels s = .error f ↔ Source.Unresolved ls s f := by
  rw [Assembly.resolve_eq_error_iff]
  constructor
  · rintro ⟨name, rfl, ⟨hnone, rfl⟩ | ⟨k, hk, hfar, rfl⟩⟩
    · exact .undefined (h.address?_eq_none_iff.mp hnone)
    · obtain ⟨j, hj, rfl⟩ := h.address?_eq_some_iff.mp hk
      exact .far hj hfar
  · rintro (@⟨name, hnone⟩ | @⟨name, j, hj, hfar⟩)
    · exact ⟨name, rfl, Or.inl ⟨h.address?_eq_none_iff.mpr hnone, rfl⟩⟩
    · exact ⟨name, rfl, Or.inr ⟨_, h.address?_eq_some_iff.mpr ⟨j, hj, rfl⟩, hfar, rfl⟩⟩

/-- A slot that is resolved has a byte. -/
theorem not_unresolved (h : Reads ls a) {c : UInt8} (hs : resolve a.labels s = .ok c) :
    ¬ Source.Unresolved ls s f := by
  intro hf
  cases hs.symm.trans (h.resolve_eq_error_iff.mpr hf)

end Reads

/-! ### Both passes -/

/-- The fault of a result, if it has one. -/
def fault? : Except AssemblyFault Program → Option AssemblyFault
  | .ok _ => none
  | .error e => some e

/-- Each end of assembling is the verdict on the text. -/
theorem Assembled.verdict {result : Except AssemblyFault Program} (h : Assembled ls result) :
    Source.Verdict ls (fault? result) := by
  cases h with
  | linked h hp =>
    refine .nothing h.not_defective fun s hs f => ?_
    rw [← h.code] at hs
    obtain ⟨c, hc⟩ := Fallible.exists_ok_of_mem (link_eq_ok_iff.mp hp).1 hs
    exact h.not_unresolved hc
  | unlinked h hf =>
    obtain ⟨before, s, after, hcode, hs, hbefore⟩ := link_eq_error_iff.mp hf
    rw [h.code] at hcode
    refine .link (k := before.length) h.not_defective ?_ (h.resolve_eq_error_iff.mp hs) ?_
    · rw [hcode, List.getElem?_append_right (Nat.le_refl _), Nat.sub_self]
      rfl
    · intro l hl s g hs
      rw [hcode, List.getElem?_append_left hl] at hs
      obtain ⟨c, hc⟩ := hbefore s (List.mem_of_getElem? hs)
      exact h.not_unresolved hc
  | @refused before after t a b f hls h hadd =>
    subst hls
    refine .line (t := t) ?_ ?_ fun j hj => ?_
    · rw [List.getElem?_append_right (Nat.le_refl _), Nat.sub_self]
      rfl
    · rw [List.take_left]
      exact h.reports hadd
    · rw [Source.defective_append_iff hj]
      exact h.not_defective j

end Assembly

/-- **Which fault is reported.** Assembling fails with a fault exactly if that is the verdict on the
source text, and succeeds exactly if there is nothing to report. -/
theorem assemble_verdict (source : Text) :
    (∀ e, assemble source = .error e ↔ Source.Verdict source.lines (some e)) ∧
      ((∃ p, assemble source = .ok p) ↔ Source.Verdict source.lines none) := by
  have hverdict := (Assembly.assembled source).verdict
  cases hresult : assemble source with
  | error f =>
    rw [hresult] at hverdict
    refine ⟨fun e => ⟨?_, fun he => ?_⟩, ⟨?_, fun hnone => ?_⟩⟩
    · rintro ⟨⟩
      exact hverdict
    · rw [Option.some.inj (hverdict.unique he)]
    · rintro ⟨p, ⟨⟩⟩
    · cases hverdict.unique hnone
  | ok p =>
    rw [hresult] at hverdict
    refine ⟨fun e => ⟨?_, fun he => ?_⟩, ⟨fun _ => hverdict, fun _ => ⟨p, rfl⟩⟩⟩
    · rintro ⟨⟩
    · cases hverdict.unique he

/-- A line that repeats a label hides its own unknown mnemonic and an open reference above it. -/
example : assemble "top: JMP end\nTOP: FOO".toList
    = .error (.line 1 (.duplicateLabel "TOP".toList)) := by
  decide +kernel

end Octasm
