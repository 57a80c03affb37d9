import Octasm.Proofs.Assembly.Log
import Octasm.Proofs.Spans

/-!
# Every reachable state is coherent

Code, source map, spans and labels are updated at different points of adding a line, and a line may
be refused between two of these points. They stay in step all the same, whatever the indices of the
lines are: they may repeat, leave gaps or go back.

Only the spans know about indices. A line that is added under an index again loses its span to the
later line, and an index that is skipped gets an empty one; the bytes in the code and the entries of
the source map stay.

## Main definitions

* `Assembly.Coherent`: how the parts of a state belong together

## Main results

* `spansOf_origin`: where the spans come from
* `cover_spansOf`: in ascending order the spans leave no gap
* `Assembly.coherent_run`: any calls lead to a coherent state
-/

namespace Octasm

/-! ### Where spans come from -/

/-- Two accepted lines do not overlap. -/
theorem place_disjoint {log : List Call} {e f : Placed} (he : e ∈ place 0 log)
    (hf : f ∈ place 0 log) (hne : e ≠ f) : e.stop ≤ f.address ∨ f.stop ≤ e.address := by
  have hsymm : Std.Symm fun e f : Placed => e.stop ≤ f.address ∨ f.stop ≤ e.address :=
    ⟨fun _ _ => Or.symm⟩
  have hpair : (place 0 log).Pairwise fun e f => e.stop ≤ f.address ∨ f.stop ≤ e.address :=
    (place_pairwise 0 log).imp fun h => Or.inl h
  exact hpair.forall he hf hne

/-- A span is empty, or it is that of an accepted line with its index. -/
theorem spansOf_origin {log : List Call} {i : Nat} {s : Span} (h : (spansOf log)[i]? = some s) :
    (s.start = s.stop ∧ s.stop ≤ (codeOf log).length) ∨
      ∃ e ∈ place 0 log, e.index = i ∧ e.span = s := by
  induction log using List.reverseRecOn with
  | nil => cases h
  | append_singleton log c ih =>
    have hgrow : (codeOf log).length ≤ (codeOf (log ++ [c])).length := by
      rw [length_codeOf_concat]
      exact Nat.le_add_right _ _
    rw [spansOf_concat, Span.getElem?_record] at h
    rw [place_concat, Nat.zero_add]
    split at h
    · refine Or.inr ⟨_, List.mem_append_right _ (List.mem_singleton.mpr rfl), ?_, ?_⟩
      · exact Eq.symm ‹i = c.index›
      · exact Option.some.inj h
    · split at h
      · rcases ih h with ⟨hs, hle⟩ | ⟨e, he, hi, hs⟩
        · exact Or.inl ⟨hs, Nat.le_trans hle hgrow⟩
        · exact Or.inr ⟨e, List.mem_append_left _ he, hi, hs⟩
      · split at h
        · obtain rfl := Option.some.inj h
          exact Or.inl ⟨rfl, hgrow⟩
        · cases h

/-- The spans reach no further than the largest index. -/
theorem exists_of_lt_length_spansOf {log : List Call} {i : Nat} (h : i < (spansOf log).length) :
    ∃ c ∈ log, i ≤ c.index := by
  induction log using List.reverseRecOn with
  | nil => cases h
  | append_singleton log c ih =>
    rw [spansOf_concat, Span.length_record] at h
    by_cases hi : i ≤ c.index
    · exact ⟨c, List.mem_append_right _ (List.mem_singleton.mpr rfl), hi⟩
    · obtain ⟨d, hd, hid⟩ := ih (by omega)
      exact ⟨d, List.mem_append_left _ hd, hid⟩

/-- If the indices ascend, every line is recorded behind the last one, and no gap is left. -/
theorem cover_spansOf {log : List Call} (h : (log.map Call.index).Pairwise (· < ·)) :
    Span.Cover 0 (codeOf log).length (spansOf log) := by
  induction log using List.reverseRecOn with
  | nil => rfl
  | append_singleton log c ih =>
    rw [List.map_append, List.pairwise_append] at h
    obtain ⟨hlog, -, hlast⟩ := h
    have hlen : (spansOf log).length ≤ c.index := by
      by_contra hlt
      obtain ⟨d, hd, hle⟩ := exists_of_lt_length_spansOf (Nat.lt_of_not_le hlt)
      have := hlast d.index (List.mem_map_of_mem hd) c.index (List.mem_singleton.mpr rfl)
      omega
    rw [spansOf_concat, Span.record_of_length_le hlen, length_codeOf_concat]
    refine ((ih hlog).append (Span.cover_replicate _ _)).append ?_
    exact ⟨rfl, Nat.le_add_right _ _, rfl⟩

/-! ### Coherent states -/

namespace Assembly

/-- How the parts of a state belong together; `log` are the accepted lines in the order in which
they were added, and `place 0 log` are the same lines with their addresses. -/
structure Coherent (log : List Call) (a : Assembly) : Prop where
  lines : ∀ c ∈ log, Line.Accepted c.text
  /-- The code is made of the bytes of the accepted lines. -/
  code : a.code = log.flatMap fun c => Line.slots c.text
  span_bounds : ∀ s ∈ a.spans, s.start ≤ s.stop ∧ s.stop ≤ a.code.length
  /-- A span with bytes holds those of one accepted line, which was added under its index. -/
  span_origin : ∀ (i : Nat) (s : Span), a.spans[i]? = some s → s.start < s.stop →
    ∃ e ∈ place 0 log, e.index = i ∧ e.span = s ∧
      (a.code.drop s.start).take (s.stop - s.start) = Line.slots e.text ∧
      ∀ f ∈ place 0 log, f.span = s → f = e
  span_disjoint : ∀ (i j : Nat) (s t : Span), i ≠ j → a.spans[i]? = some s → a.spans[j]? = some t →
    s.start < s.stop → t.start < t.stop → s.stop ≤ t.start ∨ t.stop ≤ s.start
  /-- Every accepted line with a mnemonic other than `DB` has an entry, from its address to its
  index. -/
  sourceMap : a.sourceMap.entries =
    ((place 0 log).filter fun e => (Line.mnemonic? e.text).any fun m => m != .db).map
      fun e => (e.address, e.index)
  /-- No two entries have one address. -/
  sourceMap_ascending : a.sourceMap.entries.Pairwise fun x y => x.1 < y.1
  label_ascending : a.labels.entries.Pairwise fun x y => x.2 ≤ y.2
  label_bounds : ∀ x ∈ a.labels.entries, x.2 ≤ a.code.length
  /-- No label is strictly inside the bytes of a line. -/
  label_outside : ∀ x ∈ a.labels.entries, ∀ e ∈ place 0 log, ¬ (e.address < x.2 ∧ x.2 < e.stop)
  /-- Spans of ascending lines leave no gap, and skipped indices have empty ones. -/
  cover : (log.map Call.index).Pairwise (· < ·) →
    Span.Cover 0 a.code.length a.spans ∧
      ∀ (i : Nat) (s : Span), a.spans[i]? = some s → i ∉ log.map Call.index → s.start = s.stop

namespace Tracks

variable {log : List Call} {a : Assembly} {i : Nat} {s : Span}

/-- A span with bytes is that of an accepted line with its index. -/
theorem exists_placed (h : Tracks log a) (hs : a.spans[i]? = some s) (hne : s.start < s.stop) :
    ∃ e ∈ place 0 log, e.index = i ∧ e.span = s := by
  rw [h.spans] at hs
  rcases spansOf_origin hs with ⟨hempty, -⟩ | he
  · omega
  · exact he

theorem span_bounds (h : Tracks log a) (hs : s ∈ a.spans) :
    s.start ≤ s.stop ∧ s.stop ≤ a.code.length := by
  obtain ⟨i, hi⟩ := List.mem_iff_getElem?.mp hs
  rw [h.spans] at hi
  rw [h.code]
  rcases spansOf_origin hi with ⟨hempty, hle⟩ | ⟨e, he, -, rfl⟩
  · exact ⟨Nat.le_of_eq hempty, hle⟩
  · have hstop := (bounds_of_mem_place he).2
    rw [Nat.zero_add] at hstop
    exact ⟨e.address_le_stop, hstop⟩

/-- What a log leaves behind is coherent. -/
theorem coherent (h : Tracks log a) : Coherent log a where
  lines := h.lines
  code := h.code
  span_bounds s hs := h.span_bounds hs
  span_origin i s hs hne := by
    obtain ⟨e, he, hi, rfl⟩ := h.exists_placed hs hne
    refine ⟨e, he, hi, rfl, ?_, fun f hf hspan => ?_⟩
    · rw [h.code]
      exact slots_of_mem_place he
    · by_contra hfe
      have hstart : f.address = e.address := congrArg Span.start hspan
      have hstop : f.stop = e.stop := congrArg Span.stop hspan
      have hlt : e.address < e.stop := hne
      have := place_disjoint hf he hfe
      omega
  span_disjoint i j s t hij hs ht hsne htne := by
    obtain ⟨e, he, rfl, rfl⟩ := h.exists_placed hs hsne
    obtain ⟨f, hf, rfl, rfl⟩ := h.exists_placed ht htne
    exact place_disjoint he hf fun hef => hij (congrArg Placed.index hef)
  sourceMap := h.entries
  sourceMap_ascending := by
    rw [h.sourceMap]
    exact entries_pairwise log
  label_ascending := h.labels_ascending
  label_bounds := h.labels_bounded
  label_outside := h.labels_outside
  cover hasc := by
    rw [h.code, h.spans]
    refine ⟨cover_spansOf hasc, fun i s hs hi => ?_⟩
    rcases spansOf_origin hs with ⟨hempty, -⟩ | ⟨e, he, rfl, -⟩
    · exact hempty
    · rw [← map_index_place 0] at hi
      exact absurd (List.mem_map_of_mem he) hi

end Tracks

/-- **Every reachable state is coherent.** Any calls, accepted or refused and under any indices,
lead from nothing to a state whose parts belong to the accepted lines. -/
theorem coherent_run (calls : List Call) :
    Coherent (accepted .empty calls) (run .empty calls) :=
  (Tracks.empty.run calls).coherent

end Assembly

end Octasm
