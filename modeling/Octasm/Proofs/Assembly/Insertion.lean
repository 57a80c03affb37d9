import Octasm.Proofs.Assembly.Composition
import Mathlib.Data.List.InsertIdx

/-!
# Blank lines and comments

A line without a label and without a mnemonic adds nothing to a program but an empty span. Wherever
it is inserted, all that changes is how the lines below it are counted: the source map names them by
their new indices, and a fault of one of them is reported under its new index.

The lines above, the new line and the lines below are three texts one behind the other, so the state
that they lead to follows from the composition of states. A line below that is refused is refused
after other lines, hence in another state than before; but what a line is refused for depends on the
labels in the state and on nothing else there, and these are the same.

## Main definitions

* `Text.insertLine`: a text with a line inserted
* `Line.Blank`: a line without a label and without a mnemonic
* `Source.renumber`: the index of a line after an insertion
* `Program.insertLine`, `AssemblyFault.insertLine`: what an insertion does to a result

## Main results

* `Text.lines_insertLine`: the lines of a text with a line inserted
* `Source.entries_insert`, `Source.spans_insert`: what a blank line among others changes
* `assemble_insertLine`: assembling a text with a blank line inserted
-/

namespace Octasm

/-! ### Inserting a line -/

namespace Text

/-- The text with a line inserted in front of its line `i`, or behind its last line. -/
def insertLine (t : Text) (i : Nat) (line : Text) : Text :=
  ['\n'].intercalate (t.lines.insertIdx i line)

/-- Lines hold no line feed. -/
theorem newline_notMem_of_mem_lines {t l : Text} (h : l ∈ t.lines) : '\n' ∉ l := by
  induction t generalizing l with
  | nil =>
    obtain rfl : l = [] := by simpa [lines] using h
    simp
  | cons c t ih =>
    rw [lines, List.splitOn_cons_eq_if_modifyHead] at h
    split at h
    · rcases List.mem_cons.mp h with rfl | h
      · simp
      · exact ih h
    · rename_i hc
      -- the character goes to the front of the first line
      obtain ⟨first, rest, hlines⟩ := List.exists_cons_of_ne_nil (lines_ne_nil t)
      rw [show List.splitOn '\n' t = first :: rest from hlines, List.modifyHead_cons] at h
      rcases List.mem_cons.mp h with rfl | h
      · have hfirst : '\n' ∉ first := ih (by rw [hlines]; exact List.mem_cons_self ..)
        intro hmem
        rcases List.mem_cons.mp hmem with hnewline | hmem
        · exact hc (beq_iff_eq.mpr hnewline.symm)
        · exact hfirst hmem
      · exact ih (by rw [hlines]; exact List.mem_cons_of_mem first h)

theorem lines_insertLine {t line : Text} (i : Nat) (hline : '\n' ∉ line) :
    (t.insertLine i line).lines = t.lines.insertIdx i line := by
  refine List.splitOn_intercalate '\n' (fun l hl => ?_) ?_
  · rcases List.eq_or_mem_of_mem_insertIdx hl with rfl | hl
    · exact hline
    · exact newline_notMem_of_mem_lines hl
  · rw [← List.length_pos_iff]
    exact Nat.lt_of_lt_of_le (List.length_pos_iff.mpr t.lines_ne_nil)
      List.length_le_length_insertIdx

end Text

/-- Inserting behind the front of a list. -/
theorem insertIdx_append_length {α : Type} (xs ys : List α) (x : α) :
    (xs ++ ys).insertIdx xs.length x = xs ++ x :: ys := by
  induction xs with
  | nil => rfl
  | cons y xs ih => rw [List.cons_append, List.length_cons, List.insertIdx_succ_cons, ih]; rfl

/-! ### Blank lines -/

namespace Line

/-- A line without a label and without a mnemonic. -/
def Blank (t : Text) : Prop := ∃ s, Statement.ofText t = .ok s ∧ s.isEmpty = true

variable {t : Text}

theorem Blank.label?_eq_none (h : Blank t) : label? t = none := by
  obtain ⟨s, hs, hempty⟩ := h
  rw [label?_of_ofText hs]
  simp_all [Statement.isEmpty]

theorem Blank.emission_eq_nothing {s : Statement} (h : s.isEmpty = true) :
    s.emission = .ok .nothing := by
  have hm : s.mnemonic = none := by simp_all [Statement.isEmpty]
  rw [Statement.emission, hm]

theorem Blank.accepted (h : Blank t) : Accepted t := by
  obtain ⟨s, hs, hempty⟩ := h
  exact ⟨s, .nothing, hs, emission_eq_nothing hempty⟩

theorem Blank.emission_eq (h : Blank t) : emission t = .nothing := by
  obtain ⟨s, hs, hempty⟩ := h
  exact emission_of_ofText hs (emission_eq_nothing hempty)

end Line

namespace Source

variable {xs ys : List Text} {c : Text}

/-- The index of a line after another has been inserted as line `i`. -/
def renumber (i j : Nat) : Nat := if j < i then j else j + 1

/-- A blank line by itself leads to an empty span. -/
theorem state_blank (hc : Line.Blank c) : state [c] = ⟨[], ⟨[]⟩, ⟨[]⟩, [⟨0, 0⟩]⟩ := by
  have hplace : place 0 (calls [c]) = [⟨0, 0, c⟩] := rfl
  have hslots : Line.slots c = [] := by rw [Line.slots, hc.emission_eq]; rfl
  have hinstr : Line.isInstruction c = false := by rw [Line.isInstruction, hc.emission_eq]; rfl
  simp [state, slots, entries, labels, spans, hplace, hslots, hinstr, Placed.instruction?,
    Placed.label?, hc.label?_eq_none, Placed.span, Placed.stop]

/-- A blank line in front of others. -/
theorem state_cons (hc : Line.Blank c) (ys : List Text) :
    state (c :: ys) = ⟨slots ys, ⟨(entries ys).map fun x => (x.1, x.2 + 1)⟩, ⟨labels ys⟩,
      ⟨0, 0⟩ :: spans ys⟩ := by
  have hblank := state_blank hc
  have hslots : slots [c] = [] := congrArg Assembly.code hblank
  have hentries : entries [c] = [] := congrArg (fun a => a.sourceMap.entries) hblank
  have hlabels : labels [c] = [] := congrArg (fun a => a.labels.entries) hblank
  have hspans : spans [c] = [⟨0, 0⟩] := congrArg Assembly.spans hblank
  rw [← List.singleton_append, state, slots_append, entries_append, labels_append, spans_append,
    hslots, hentries, hlabels, hspans]
  simp

theorem slots_insert (hc : Line.Blank c) : slots (xs ++ c :: ys) = slots (xs ++ ys) := by
  have hbelow : slots (c :: ys) = slots ys := congrArg Assembly.code (state_cons hc ys)
  rw [slots_append, hbelow, slots_append]

theorem names_insert (hc : Line.Blank c) : names (xs ++ c :: ys) = names (xs ++ ys) := by
  simp only [names, List.filterMap_append, List.filterMap_cons, hc.label?_eq_none]

theorem labels_insert (hc : Line.Blank c) : labels (xs ++ c :: ys) = labels (xs ++ ys) := by
  have hbelow : labels (c :: ys) = labels ys :=
    congrArg (fun a => a.labels.entries) (state_cons hc ys)
  rw [labels_append, hbelow, labels_append]

/-- The lines below are counted anew. -/
theorem entries_insert (hc : Line.Blank c) :
    entries (xs ++ c :: ys)
      = (entries (xs ++ ys)).map fun x => (x.1, renumber xs.length x.2) := by
  have hbelow : entries (c :: ys) = (entries ys).map fun x => (x.1, x.2 + 1) :=
    congrArg (fun a => a.sourceMap.entries) (state_cons hc ys)
  rw [entries_append, hbelow, entries_append, List.map_append, List.map_map, List.map_map]
  congr 1
  · have habove : ∀ x ∈ entries xs, x = (x.1, renumber xs.length x.2) := by
      intro x hx
      rw [renumber, if_pos (snd_lt_of_mem_entries hx)]
    exact (List.map_id _).symm.trans (List.map_congr_left habove)
  · refine List.map_congr_left fun x _ => ?_
    have hlt : ¬ x.2 + xs.length < xs.length := Nat.not_lt.mpr (Nat.le_add_left _ _)
    simp [renumber, hlt, Nat.add_right_comm]

/-- The new line has an empty span. -/
theorem spans_insert (hc : Line.Blank c) :
    spans (xs ++ c :: ys)
      = (spans (xs ++ ys)).insertIdx xs.length ⟨(slots xs).length, (slots xs).length⟩ := by
  have hbelow : spans (c :: ys) = ⟨0, 0⟩ :: spans ys := congrArg Assembly.spans (state_cons hc ys)
  rw [spans_append, hbelow, spans_append, ← length_spans xs, insertIdx_append_length]
  simp

theorem accepted_insert_iff (hc : Line.Blank c) :
    Accepted (xs ++ c :: ys) ↔ Accepted (xs ++ ys) := by
  have hlines : (∀ t ∈ xs ++ c :: ys, Line.Accepted t) ↔ ∀ t ∈ xs ++ ys, Line.Accepted t := by
    rw [List.forall_mem_append, List.forall_mem_cons, and_iff_right hc.accepted,
      List.forall_mem_append]
  constructor
  · rintro ⟨h, hunreserved, hdistinct⟩
    rw [names_insert hc] at hunreserved hdistinct
    exact ⟨hlines.mp h, hunreserved, hdistinct⟩
  · rintro ⟨h, hunreserved, hdistinct⟩
    rw [← names_insert hc] at hunreserved hdistinct
    exact ⟨hlines.mpr h, hunreserved, hdistinct⟩

end Source

/-! ### Results -/

/-- A program with one more line, which has the index `i` and stands at the address `k` without a
byte. -/
def Program.insertLine (p : Program) (i k : Nat) : Program :=
  { p with
    sourceMap := ⟨p.sourceMap.entries.map fun x => (x.1, Source.renumber i x.2)⟩
    spans := p.spans.insertIdx i ⟨k, k⟩ }

/-- A fault is that of the same line, or of the same reference. -/
def AssemblyFault.insertLine (i : Nat) : AssemblyFault → AssemblyFault
  | line j f => line (Source.renumber i j) f
  | link f => link f

namespace Assembly

open Source

variable {xs ys : List Text} {a a' b : Assembly} {c t : Text} {i : Nat} {f : Fault}

/-- What a line is refused for depends on the labels alone. -/
theorem Added.refused_congr (h : Added a i t b (some f)) (hlabels : a'.labels = a.labels)
    (j : Nat) : ∃ b', Added a' j t b' (some f) := by
  cases h with
  | malformed hs => exact ⟨_, .malformed hs⟩
  | undeclared hs hd =>
    rw [declare_eq_error_iff, ← hlabels] at hd
    exact ⟨_, .undeclared hs (declare_eq_error_iff.mpr hd)⟩
  | unencoded hs hd he =>
    obtain ⟨hfree, -⟩ := declare_eq_ok_iff.mp hd
    rw [← hlabels] at hfree
    exact ⟨_, .unencoded hs (declare_eq_ok_iff.mpr ⟨hfree, rfl⟩) he⟩

/-- Linking looks at the code and the labels. -/
theorem link_insert (hc : Line.Blank c) :
    (state (xs ++ c :: ys)).link
      = (state (xs ++ ys)).link.map (Program.insertLine · xs.length (slots xs).length) := by
  have hcode : (state (xs ++ c :: ys)).code = (state (xs ++ ys)).code := slots_insert hc
  have hlabels : (state (xs ++ c :: ys)).labels = (state (xs ++ ys)).labels :=
    congrArg Labels.mk (labels_insert hc)
  rw [link, link, hcode, hlabels]
  cases (state (xs ++ ys)).code.mapM (resolve (state (xs ++ ys)).labels) with
  | error f => rfl
  | ok code =>
    have hmap : (state (xs ++ c :: ys)).sourceMap = ⟨(entries (xs ++ ys)).map fun x =>
        (x.1, renumber xs.length x.2)⟩ := congrArg SourceMap.mk (entries_insert hc)
    have hspans : (state (xs ++ c :: ys)).spans = _ := spans_insert hc
    rw [hmap, hspans]
    rfl

/-- **A blank line among others**: each end of assembling the lines is that of the others. -/
theorem Assembled.insert (hc : Line.Blank c) {result : Except AssemblyFault Program}
    (h : Assembled (xs ++ ys) result) :
    Assembled (xs ++ c :: ys)
      ((result.map (Program.insertLine · xs.length (slots xs).length)).mapError
        (AssemblyFault.insertLine xs.length)) := by
  cases h with
  | linked ha hp =>
    refine .linked (reads_state ((accepted_insert_iff hc).mpr ha.accepts)) ?_
    rw [link_insert hc, ← ha.eq_state, hp]
    rfl
  | unlinked ha hf =>
    refine .unlinked (reads_state ((accepted_insert_iff hc).mpr ha.accepts)) ?_
    rw [link_insert hc, ← ha.eq_state, hf]
    rfl
  | @refused before after t a b f hls ha hadd =>
    rcases append_eq_append_cons hls with ⟨mid, hxs⟩ | ⟨mid, rfl, rfl⟩
    · have habove : before.length < xs.length := by simp [hxs]
      simp only [Except.map, Except.mapError, AssemblyFault.insertLine, renumber, if_pos habove]
      exact (assembled_append_line_iff habove).mpr (.refused hxs ha hadd)
    · -- the lines above the refused one have the blank line among them
      have hindex : renumber xs.length (xs ++ mid).length = (xs ++ c :: mid).length := by
        rw [renumber, if_neg (by simp), List.length_append, List.length_append, List.length_cons]
        omega
      have hread := reads_state ((accepted_insert_iff hc).mpr ha.accepts)
      have hlabels : (state (xs ++ c :: mid)).labels = a.labels := by
        rw [ha.eq_state]
        exact congrArg Labels.mk (labels_insert hc)
      obtain ⟨b', hb'⟩ := hadd.refused_congr hlabels (xs ++ c :: mid).length
      simp only [Except.map, Except.mapError, AssemblyFault.insertLine, hindex]
      exact .refused (by rw [List.append_assoc, List.cons_append]) hread hb'

end Assembly

/-- **A blank line or a comment only renumbers lines.** -/
theorem assemble_insertLine {s c : Text} {i : Nat} {statement : Statement}
    (hi : i ≤ s.lines.length) (hnewline : '\n' ∉ c) (hc : Statement.ofText c = .ok statement)
    (hempty : statement.isEmpty = true) :
    assemble (s.insertLine i c) =
      match assemble s with
      | .ok p => .ok (p.insertLine i (Source.offset s.lines i))
      | .error (.line j f) => .error (.line (Source.renumber i j) f)
      | .error (.link f) => .error (.link f) := by
  have hblank : Line.Blank c := ⟨statement, hc, hempty⟩
  have hsplit : s.lines.take i ++ s.lines.drop i = s.lines := List.take_append_drop i s.lines
  have hlength : (s.lines.take i).length = i := by
    rw [List.length_take]
    exact Nat.min_eq_left hi
  have hinsert : (s.insertLine i c).lines = s.lines.take i ++ c :: s.lines.drop i := by
    rw [Text.lines_insertLine i hnewline, ← insertIdx_append_length, hsplit, hlength]
  have hoffset : Source.offset s.lines i = (Source.slots (s.lines.take i)).length :=
    Source.offset_eq_length s.lines i
  have hend := Assembly.assembled s
  rw [← hsplit] at hend
  have hinserted := hend.insert hblank
  rw [← hinsert, hlength, ← hoffset] at hinserted
  rw [assemble_eq_iff.mpr hinserted]
  cases assemble s with
  | ok p => rfl
  | error e =>
    cases e with
    | line j f => rfl
    | link f => rfl

/-- A comment between two lines moves the second, with its fault if it has one. -/
theorem insertLine_comment :
    (Text.insertLine "JMP end\nend: HLT".toList 1 "  ; stop".toList
        = "JMP end\n  ; stop\nend: HLT".toList ∧
      assemble (Text.insertLine "JMP end\nend: HLT".toList 1 "  ; stop".toList)
        = .ok ⟨[103, 2, 0], ⟨[(0, 0), (2, 2)]⟩, [("end".toList, 2)], [⟨0, 2⟩, ⟨2, 2⟩, ⟨2, 3⟩]⟩) ∧
    assemble (Text.insertLine "end: HLT\nEND: RET".toList 1 "  ; stop".toList)
      = .error (.line 2 (.duplicateLabel "END".toList)) := by
  have hcomment : Statement.ofText "  ; stop".toList = .ok .empty := by decide
  have hok : assemble "JMP end\nend: HLT".toList
      = .ok ⟨[103, 2, 0], ⟨[(0, 0), (2, 1)]⟩, [("end".toList, 2)], [⟨0, 2⟩, ⟨2, 3⟩]⟩ := by
    decide +kernel
  have herror : assemble "end: HLT\nEND: RET".toList
      = .error (.line 1 (.duplicateLabel "END".toList)) := by decide +kernel
  refine ⟨⟨by decide, ?_⟩, ?_⟩
  · rw [assemble_insertLine (by decide) (by decide) hcomment rfl, hok]
    rfl
  · rw [assemble_insertLine (by decide) (by decide) hcomment rfl, herror]
    rfl

end Octasm
