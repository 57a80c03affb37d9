import Octasm.Proofs.Assembly.Link
import Octasm.Proofs.Labels
import Octasm.Proofs.Placement

/-!
# What a state holds

Lines may be added under any indices, and some of them are refused. The state still depends on
little: code, source map and spans are those of the accepted lines, in the order in which they were
added. The log of a state is the list of these lines, and `Assembly.Tracks` says what the state
holds in terms of its log.

Labels are different. A line that is refused for its instruction has declared its label by then, so
the label table is not a function of the log. What can be said of it in every state is that its
names are distinct and that its addresses ascend and lie between lines.

## Main definitions

* `spansOf`: the spans of some accepted lines
* `Assembly.Tracks`: a state and its log
* `Assembly.run`, `Assembly.accepted`: any calls from a state on, and those that are accepted

## Main results

* `Assembly.Tracks.accepted`, `Assembly.Tracks.refused`: one call
* `Assembly.Tracks.run`: any calls
* `Assembly.Tracks.labels_link`: the labels of a program
-/

namespace Octasm

/-- The spans of some lines. A line that is added under an index again takes the place there. -/
def spansOf (log : List Call) : List Span :=
  (place 0 log).foldl (fun spans e => Span.record spans e.index e.span) []

theorem spansOf_concat (log : List Call) (c : Call) :
    spansOf (log ++ [c]) = Span.record (spansOf log) c.index
      ⟨(codeOf log).length, (codeOf log).length + (Line.slots c.text).length⟩ := by
  rw [spansOf, place_concat, List.foldl_append, Nat.zero_add]
  rfl

theorem length_codeOf_concat (log : List Call) (c : Call) :
    (codeOf (log ++ [c])).length = (codeOf log).length + (Line.slots c.text).length := by
  rw [codeOf_append, List.length_append, codeOf_cons, codeOf_nil, List.append_nil]

/-- The source map of some lines, whose addresses ascend because every instruction has a byte. -/
theorem entries_pairwise (log : List Call) :
    ((place 0 log).filterMap Placed.instruction?).Pairwise fun x y => x.1 < y.1 := by
  rw [List.pairwise_filterMap]
  refine (place_pairwise 0 log).imp fun {e f} hef x hx y hy => ?_
  obtain ⟨he, rfl⟩ := Placed.instruction?_eq_some_iff.mp hx
  obtain ⟨-, rfl⟩ := Placed.instruction?_eq_some_iff.mp hy
  exact Nat.lt_of_lt_of_le (Placed.address_lt_stop he) hef

/-- The addresses in the source map lie below the end of the code. -/
theorem lt_of_mem_entries {log : List Call} {x : Nat × Nat}
    (h : x ∈ (place 0 log).filterMap Placed.instruction?) : x.1 < (codeOf log).length := by
  obtain ⟨e, he, hx⟩ := List.mem_filterMap.mp h
  obtain ⟨hi, rfl⟩ := Placed.instruction?_eq_some_iff.mp hx
  have hlt := Placed.address_lt_stop hi
  have hle := (bounds_of_mem_place he).2
  simp only [Nat.zero_add] at hle
  omega

namespace Assembly

/-- A state holds the code, the source map and the spans of the lines in its log, and labels that
are distinct and lie in ascending order between these lines. -/
structure Tracks (log : List Call) (a : Assembly) : Prop where
  lines : ∀ c ∈ log, Line.Accepted c.text
  code : a.code = codeOf log
  sourceMap : a.sourceMap.entries = (place 0 log).filterMap Placed.instruction?
  spans : a.spans = spansOf log
  labels_distinct : a.labels.Distinct
  labels_unreserved : ∀ x ∈ a.labels.entries, Register.ofText? x.1 = none
  labels_ascending : a.labels.entries.Pairwise fun x y => x.2 ≤ y.2
  labels_bounded : ∀ x ∈ a.labels.entries, x.2 ≤ a.code.length
  labels_outside : ∀ x ∈ a.labels.entries, ∀ e ∈ place 0 log, ¬ (e.address < x.2 ∧ x.2 < e.stop)

namespace Tracks

variable {log : List Call} {a b : Assembly} {label : Option Text} {f : Fault}

theorem position (h : Tracks log a) : a.position = (codeOf log).length := by
  rw [Assembly.position, h.code]

theorem empty : Tracks [] .empty where
  lines := by simp
  code := rfl
  sourceMap := rfl
  spans := rfl
  labels_distinct := Labels.distinct_empty
  labels_unreserved := by simp [Assembly.empty, Labels.empty]
  labels_ascending := List.Pairwise.nil
  labels_bounded := by simp [Assembly.empty, Labels.empty]
  labels_outside := by simp

/-- A label that is bound stands behind all lines and after all other labels. -/
theorem declare (h : Tracks log a) (hd : a.declare label = .ok b) : Tracks log b := by
  obtain ⟨hnew, rfl⟩ := declare_eq_ok_iff.mp hd
  cases label with
  | none =>
    rw [Option.toList_none, List.map_nil, List.append_nil]
    exact h
  | some name =>
    refine ⟨h.lines, h.code, h.sourceMap, h.spans, h.labels_distinct.concat (hnew name rfl).1,
      ?_, ?_, ?_, ?_⟩
    · intro x hx
      rcases List.mem_append.mp hx with hx | hx
      · exact h.labels_unreserved x hx
      · obtain rfl : x = (name, a.position) := List.mem_singleton.mp hx
        exact (hnew name rfl).2
    · refine List.pairwise_append.mpr ⟨h.labels_ascending, List.pairwise_singleton _ _, ?_⟩
      intro x hx y hy
      rw [List.mem_singleton.mp hy]
      exact h.labels_bounded x hx
    · intro x hx
      rcases List.mem_append.mp hx with hx | hx
      · exact h.labels_bounded x hx
      · obtain rfl : x = (name, a.position) := List.mem_singleton.mp hx
        exact Nat.le_refl _
    · intro x hx e he
      rcases List.mem_append.mp hx with hx | hx
      · exact h.labels_outside x hx e he
      · obtain rfl : x = (name, a.position) := List.mem_singleton.mp hx
        have hstop := (bounds_of_mem_place he).2
        rw [Nat.zero_add, ← h.position] at hstop
        exact fun hin => absurd hin.2 (Nat.not_lt.mpr hstop)

/-- The bytes of a line stand behind those of the log. -/
theorem emit (h : Tracks log a) {c : Call} (hc : Line.Accepted c.text) :
    Tracks (log ++ [c]) (a.emit c.index (Line.emission c.text)) := by
  have hcode : (a.emit c.index (Line.emission c.text)).code = codeOf (log ++ [c]) := by
    rw [codeOf_append, ← h.code]
    simp only [Assembly.emit, codeOf_cons, codeOf_nil, List.append_nil, Line.slots]
  have hgrow : a.code.length ≤ (a.emit c.index (Line.emission c.text)).code.length := by
    rw [hcode, length_codeOf_concat, h.code]
    exact Nat.le_add_right _ _
  refine ⟨?_, hcode, ?_, ?_, h.labels_distinct, h.labels_unreserved, h.labels_ascending,
    fun x hx => ?_, ?_⟩
  · intro d hd
    rcases List.mem_append.mp hd with hd | hd
    · exact h.lines d hd
    · rw [List.mem_singleton.mp hd]
      exact hc
  · have hlast : Placed.instruction? ⟨c.index, (codeOf log).length, c.text⟩
        = if Line.isInstruction c.text then some ((codeOf log).length, c.index) else none := rfl
    rw [place_concat, List.filterMap_append, List.filterMap_cons, Nat.zero_add, hlast,
      ← h.sourceMap, List.filterMap_nil]
    by_cases hi : Line.isInstruction c.text = true
    · simp only [Assembly.emit, show (Line.emission c.text).isInstruction = true from hi, hi,
        if_true, SourceMap.insert, h.position]
      refine SourceMap.place_eq_append fun x hx => ?_
      exact lt_of_mem_entries (h.sourceMap ▸ hx)
    · simp only [Assembly.emit, Bool.not_eq_true] at hi ⊢
      simp only [show (Line.emission c.text).isInstruction = false from hi, hi, List.append_nil,
        Bool.false_eq_true, if_false]
  · rw [spansOf_concat, ← h.spans, ← h.position]
    rfl
  · exact Nat.le_trans (h.labels_bounded x hx) hgrow
  · intro x hx e he
    rw [place_concat, Nat.zero_add] at he
    rcases List.mem_append.mp he with he | he
    · exact h.labels_outside x hx e he
    · have hle := h.labels_bounded x hx
      rw [h.code] at hle
      obtain rfl := List.mem_singleton.mp he
      exact fun hin => absurd hin.1 (Nat.not_lt.mpr hle)

/-- **An accepted call** puts its line at the end of the log. -/
theorem accepted (h : Tracks log a) {c : Call} (hadd : Added a c.index c.text b none) :
    Tracks (log ++ [c]) b := by
  cases hadd with
  | accepted hs hd he =>
    rw [← Line.emission_of_ofText hs he]
    exact (h.declare hd).emit ⟨_, _, hs, he⟩

/-- **A refused call** leaves the log alone. -/
theorem refused (h : Tracks log a) {line : Nat} {t : Text} (hadd : Added a line t b (some f)) :
    Tracks log b := by
  cases hadd with
  | malformed => exact h
  | undeclared => exact h
  | unencoded _ hd _ => exact h.declare hd

/-- The source map has an entry for each line with a mnemonic other than `DB`. -/
theorem entries (h : Tracks log a) : a.sourceMap.entries
    = ((place 0 log).filter fun e => (Line.mnemonic? e.text).any fun m => m != .db).map
        fun e => (e.address, e.index) := by
  rw [h.sourceMap]
  exact filterMap_instruction? fun e he => h.lines ⟨e.index, e.text⟩ (mem_of_mem_place he)

/-- A program has the labels of its table, all of them and in their order. -/
theorem labels_link (h : Tracks log a) {p : Program} (hp : a.link = .ok p) :
    p.labels = a.labels.entries := by
  obtain ⟨-, -, hlabels, -⟩ := link_eq_ok_iff.mp hp
  rw [hlabels, h.labels_distinct.toMap_eq_entries]

end Tracks

/-! ### Any calls -/

/-- The state after some calls, accepted or refused. -/
def run (a : Assembly) : List Call → Assembly
  | [] => a
  | c :: calls => run (a.addLine c.index c.text).1 calls

/-- The calls that are accepted, in the order in which they are made. -/
def accepted (a : Assembly) : List Call → List Call
  | [] => []
  | c :: calls =>
    match a.addLine c.index c.text with
    | (b, none) => c :: accepted b calls
    | (b, some _) => accepted b calls

/-- **Any calls.** The accepted ones are the log of the state that they lead to. -/
theorem Tracks.run {log : List Call} {a : Assembly} (h : Tracks log a) (calls : List Call) :
    Tracks (log ++ a.accepted calls) (a.run calls) := by
  induction calls generalizing log a with
  | nil =>
    rw [Assembly.accepted, List.append_nil]
    exact h
  | cons c calls ih =>
    have hadd := added_addLine a c.index c.text
    rw [Assembly.accepted, Assembly.run]
    split
    · rename_i b hb
      rw [hb] at hadd ⊢
      rw [← List.singleton_append, ← List.append_assoc]
      exact ih (h.accepted hadd)
    · rename_i b f hb
      rw [hb] at hadd ⊢
      exact ih (h.refused hadd)

end Assembly

end Octasm
