import Octasm.Proofs.Assembly.Composition

/-!
# Source that is added below

Adding lines below a text does not change what has been assembled of it. This is not obvious,
because references are resolved after the last line: a label that is declared below might take a
reference away from a label above. It cannot, because names are found in any case and a second
declaration is refused in any case, so a reference that has found its label keeps it.

The text below may refer to labels above and need not be a text that is assembled by itself. If
something is wrong with the two texts together while nothing is wrong with the first, then it is
the second that is to blame.

## Main definitions

* `Program.Begins`: a program is the beginning of another

## Main results

* `Source.filter_entries_append`: the entries of the first text are those below its end
* `Assembly.begins_of_link`: the program of a text is the beginning of that of a longer text
* `Assembly.Assembled.blames`: only lines and references of the text below are to blame
* `assemble_append_extends`: assembling a text with lines added below
-/

namespace Octasm

/-- A program is the beginning of another. -/
structure Program.Begins (p r : Program) : Prop where
  code : p.code <+: r.code
  labels : p.labels <+: r.labels
  spans : p.spans <+: r.spans
  /-- The source map below the end of the code is that of the beginning. -/
  sourceMap : r.sourceMap.entries.filter (fun x => x.1 < p.code.length) = p.sourceMap.entries

/-- An assembly fault comes from the text below: from one of its lines, or from the first of all
references without a byte, which is one that it makes. -/
inductive Source.Blames (xs ys : List Text) : AssemblyFault → Prop
  | line {i : Nat} {f : Fault} (hi : xs.length ≤ i) : Blames xs ys (.line i f)
  | link {before after : List Slot} {s : Slot} {f : Fault}
      (hslots : Source.slots ys = before ++ s :: after) (hs : Unresolved (xs ++ ys) s f)
      (hfirst : ∀ u ∈ Source.slots xs ++ before, ∀ g, ¬ Unresolved (xs ++ ys) u g) :
      Blames xs ys (.link f)

/-- Below its end, the source map has the entries of the first text. -/
theorem Source.filter_entries_append (xs ys : List Text) :
    (entries (xs ++ ys)).filter (fun x => x.1 < (slots xs).length) = entries xs := by
  have hfront : (entries xs).filter (fun x => x.1 < (slots xs).length) = entries xs := by
    refine List.filter_eq_self.mpr fun x hx => ?_
    simpa using fst_lt_of_mem_entries hx
  have hback : ((entries ys).map fun x => (x.1 + (slots xs).length, x.2 + xs.length)).filter
      (fun x => x.1 < (slots xs).length) = [] := by
    refine List.filter_eq_nil_iff.mpr fun x hx => ?_
    obtain ⟨y, -, rfl⟩ := List.mem_map.mp hx
    simp
  rw [entries_append, List.filter_append, hfront, hback, List.append_nil]

namespace Assembly

open Source

variable {xs ys : List Text} {p r : Program} {e : AssemblyFault}

/-- Linking more lines begins with linking the first of them. -/
theorem begins_of_link (h : Accepted (xs ++ ys)) (hp : (state xs).link = .ok p)
    (hr : (state (xs ++ ys)).link = .ok r) : p.Begins r := by
  obtain ⟨hpcode, hpmap, -, hpspans⟩ := link_eq_ok_iff.mp hp
  obtain ⟨-, hrmap, -, hrspans⟩ := link_eq_ok_iff.mp hr
  have hk : (slots xs).length = p.code.length := hpcode.length_eq
  obtain ⟨back, hcode, -⟩ := code_eq_append hp hr
  refine ⟨⟨back, hcode.symm⟩, ?_, ?_, ?_⟩
  · rw [labels_of_link (accepted_append_iff.mp h).1 hp, labels_of_link h hr]
    exact ⟨_, (labels_append xs ys).symm⟩
  · rw [hpspans, hrspans]
    exact ⟨_, (spans_append xs ys).symm⟩
  · rw [hpmap, hrmap, ← hk]
    exact filter_entries_append xs ys

/-- If the lines above can be assembled, only the lines below are to blame for a fault. -/
theorem Assembled.blames (hxs : Assembled xs (.ok p)) (h : Assembled (xs ++ ys) (.error e)) :
    Blames xs ys e := by
  cases e with
  | line i f =>
    refine .line (Nat.le_of_not_lt fun hi => ?_)
    cases hxs.unique ((assembled_append_line_iff hi).mp h)
  | link f =>
    cases hxs with
    | linked ha hp =>
      cases h with
      | unlinked hc hf =>
        rw [ha.eq_state] at hp
        rw [hc.eq_state] at hf
        have hreads : Reads (xs ++ ys) (state (xs ++ ys)) := hc.eq_state ▸ hc
        obtain ⟨before, s, after, hslots, hs, hbefore⟩ := (link_append_eq_error_iff ys hp).mp hf
        refine .link hslots (hreads.resolve_eq_error_iff.mp hs) fun u hu g => ?_
        rcases List.mem_append.mp hu with hu | hu
        · obtain ⟨c, hc⟩ := Fallible.exists_ok_of_mem (link_eq_ok_iff.mp hp).1 hu
          exact hreads.not_unresolved (resolve_front ys hc)
        · obtain ⟨c, hc⟩ := hbefore u hu
          exact hreads.not_unresolved hc

end Assembly

/-- **What has been assembled stays.** When lines are added below a text, a refused line is still
refused, a program is the beginning of the longer program, and what goes wrong only now goes wrong
in the lines that were added. -/
theorem assemble_append_extends (t s : Text) :
    (∀ i f, assemble t = .error (.line i f) →
      assemble (t ++ '\n' :: s) = .error (.line i f)) ∧
    (∀ p r, assemble t = .ok p → assemble (t ++ '\n' :: s) = .ok r → p.Begins r) ∧
    ∀ p e, assemble t = .ok p → assemble (t ++ '\n' :: s) = .error e →
      Source.Blames t.lines s.lines e := by
  simp only [assemble_eq_iff, Text.lines_append_newline]
  refine ⟨fun i f ht => ?_, fun p r hp hr => ?_, fun p e hp he => hp.blames he⟩
  · exact (Assembly.assembled_append_line_iff ht.index_lt).mpr ht
  · cases hp with
    | linked ha hp =>
      cases hr with
      | linked hc hr =>
        rw [ha.eq_state] at hp
        rw [hc.eq_state] at hr
        exact Assembly.begins_of_link hc.accepts hp hr

/-- A reference that has found its label keeps it, and a second declaration in another case is
refused where it is made. -/
theorem append_extends_jump :
    (∃ p r, assemble "JMP top\ntop: HLT".toList = .ok p ∧
      assemble "JMP top\ntop: HLT\nend: JMP TOP".toList = .ok r ∧ p.Begins r) ∧
    (∃ p e, assemble "JMP top\ntop: HLT".toList = .ok p ∧
      assemble "JMP top\ntop: HLT\nTOP: RET".toList = .error e ∧
      Source.Blames ["JMP top".toList, "top: HLT".toList] ["TOP: RET".toList] e) ∧
    assemble "A: HLT\nend: JMP TOP".toList = .error (.line 0 (.reservedLabel ['A'])) := by
  have hp : assemble "JMP top\ntop: HLT".toList
      = .ok ⟨[103, 2, 0], ⟨[(0, 0), (2, 1)]⟩, [("top".toList, 2)], [⟨0, 2⟩, ⟨2, 3⟩]⟩ := by
    decide +kernel
  have hr : assemble "JMP top\ntop: HLT\nend: JMP TOP".toList
      = .ok ⟨[103, 2, 0, 103, 2], ⟨[(0, 0), (2, 1), (3, 2)]⟩, [("top".toList, 2), ("end".toList, 3)],
        [⟨0, 2⟩, ⟨2, 3⟩, ⟨3, 5⟩]⟩ := by decide +kernel
  have he : assemble "JMP top\ntop: HLT\nTOP: RET".toList
      = .error (.line 2 (.duplicateLabel "TOP".toList)) := by decide +kernel
  have hline : assemble "A: HLT".toList = .error (.line 0 (.reservedLabel ['A'])) := by
    decide +kernel
  refine ⟨⟨_, _, hp, hr, ?_⟩, ⟨_, _, hp, he, ?_⟩, ?_⟩
  · exact (assemble_append_extends _ "end: JMP TOP".toList).2.1 _ _ hp hr
  · exact (assemble_append_extends _ "TOP: RET".toList).2.2 _ _ hp he
  · exact (assemble_append_extends _ "end: JMP TOP".toList).1 _ _ hline

end Octasm
