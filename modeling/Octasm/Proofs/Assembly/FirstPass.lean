import Octasm.Proofs.Assembly.Log

/-!
# The first pass over a source text

While the lines of a source text are accepted, the log of the state is the text itself, and the
label table is that of the text too. `Assembly.Reads` says so of a prefix of the text. From it the
label table can be read without the state: a name has the offset of the line that declares it.

The pass ends behind the last line, or at the first line that is refused. Both ends come with what
has been read by then, which is all that a proof about `assemble` needs to know about the pass.

## Main definitions

* `Assembly.Reads`: the state after some lines of a source text
* `Assembly.FirstPass`: the two ends of the pass
* `Assembly.Assembled`: the three ends of both passes

## Main results

* `Assembly.Reads.address?_eq_some_iff`: the address of a name
* `Assembly.Reads.declares_unique`: no two lines declare one name
* `Assembly.firstPass`: the pass over any source text
* `Assembly.assembled`: both passes over any source text
-/

namespace Octasm

namespace Assembly

/-- A state after all lines so far have been accepted. -/
structure Reads (ls : List Text) (a : Assembly) : Prop where
  tracks : Tracks (Source.calls ls) a
  labels : a.labels.entries = (place 0 (Source.calls ls)).filterMap Placed.label?

namespace Reads

variable {ls : List Text} {a b : Assembly} {t name : Text} {i j k : Nat}

theorem empty : Reads [] .empty := ⟨Tracks.empty, rfl⟩

/-- The state is that of an empty assembly to which the lines were added in order. -/
theorem accepted (h : Reads ls a) (hadd : Added a ls.length t b none) : Reads (ls ++ [t]) b := by
  refine ⟨?_, ?_⟩
  · rw [Source.calls_concat]
    exact h.tracks.accepted hadd
  · rw [Source.calls_concat, place_concat, List.filterMap_append, ← h.labels, Nat.zero_add,
      ← h.tracks.position]
    cases hadd with
    | @accepted s e c hs hd he =>
      obtain ⟨-, rfl⟩ := declare_eq_ok_iff.mp hd
      rw [List.filterMap_cons, List.filterMap_nil, Placed.label?, Line.label?_of_ofText hs]
      cases s.label <;> rfl

theorem code (h : Reads ls a) : a.code = ls.flatMap Line.slots := by
  rw [h.tracks.code, Source.codeOf_calls]

theorem lines (h : Reads ls a) (ht : t ∈ ls) : Line.Accepted t := by
  obtain ⟨i, hi, rfl⟩ := List.mem_iff_getElem.mp ht
  exact h.tracks.lines ⟨i, ls[i]⟩ (List.mem_mapIdx.mpr ⟨i, hi, rfl⟩)

/-- The entries of the label table are the labels of the lines with their offsets. -/
theorem mem_entries_iff (h : Reads ls a) {x : Text × Nat} :
    x ∈ a.labels.entries ↔
      ∃ i t, ls[i]? = some t ∧ Line.label? t = some x.1 ∧ x.2 = Source.offset ls i := by
  rw [h.labels, Source.place_calls, List.mem_filterMap]
  constructor
  · rintro ⟨e, he, hx⟩
    obtain ⟨i, hi, rfl⟩ := List.mem_mapIdx.mp he
    obtain ⟨hl, ha⟩ := Placed.label?_eq_some_iff.mp hx
    exact ⟨i, ls[i], List.getElem?_eq_getElem hi, hl, ha⟩
  · rintro ⟨i, t, ht, hl, ha⟩
    obtain ⟨hi, rfl⟩ := List.getElem?_eq_some_iff.mp ht
    exact ⟨_, List.mem_mapIdx.mpr ⟨i, hi, rfl⟩, Placed.label?_eq_some_iff.mpr ⟨hl, ha⟩⟩

/-- A name has the offset of the line that declares it. -/
theorem address?_eq_some_iff (h : Reads ls a) :
    a.labels.address? name = some k ↔ ∃ i, Source.Declares ls i name ∧ Source.offset ls i = k := by
  rw [Labels.address?_eq_some_iff h.tracks.labels_distinct]
  constructor
  · rintro ⟨x, hx, hname, rfl⟩
    obtain ⟨i, t, ht, hl, ha⟩ := h.mem_entries_iff.mp hx
    exact ⟨i, ⟨t, x.1, ht, hl, hname⟩, ha.symm⟩
  · rintro ⟨i, ⟨t, l, ht, hl, hname⟩, rfl⟩
    exact ⟨(l, Source.offset ls i), h.mem_entries_iff.mpr ⟨i, t, ht, hl, rfl⟩, hname, rfl⟩

theorem address?_eq_none_iff (h : Reads ls a) :
    a.labels.address? name = none ↔ ∀ i, ¬ Source.Declares ls i name := by
  rw [Option.eq_none_iff_forall_ne_some]
  simp only [ne_eq, h.address?_eq_some_iff]
  exact ⟨fun hn i hi => hn _ ⟨i, hi, rfl⟩, fun hn k ⟨i, hi, _⟩ => hn i hi⟩

/-- No two lines declare one name. -/
theorem declares_unique (h : Reads ls a) (hi : Source.Declares ls i name)
    (hj : Source.Declares ls j name) : i = j := by
  have hpair := h.tracks.labels_distinct
  rw [Labels.Distinct, h.labels, Source.place_calls, List.pairwise_filterMap,
    List.pairwise_iff_getElem] at hpair
  -- of two lines with the name, the earlier would have a label that is distinct from the later's
  have hlt : ∀ {i j}, Source.Declares ls i name → Source.Declares ls j name → ¬ i < j := by
    rintro i j ⟨t, l, ht, hl, hn⟩ ⟨u, m, hu, hm, hn'⟩ hij
    obtain ⟨hi, rfl⟩ := List.getElem?_eq_some_iff.mp ht
    obtain ⟨hj, rfl⟩ := List.getElem?_eq_some_iff.mp hu
    refine hpair i j (by simpa using hi) (by simpa using hj) hij (l, Source.offset ls i) ?_
      (m, Source.offset ls j) ?_ (hn.trans hn'.symm)
    · rw [List.getElem_mapIdx]
      exact Placed.label?_eq_some_iff.mpr ⟨hl, rfl⟩
    · rw [List.getElem_mapIdx]
      exact Placed.label?_eq_some_iff.mpr ⟨hm, rfl⟩
  exact Nat.le_antisymm (Nat.le_of_not_lt (hlt hj hi)) (Nat.le_of_not_lt (hlt hi hj))

end Reads

/-! ### The pass -/

/-- The two ends of the first pass over some lines. -/
inductive FirstPass (ls : List Text) : Except AssemblyFault Assembly → Prop
  /-- All lines are accepted. -/
  | complete {a : Assembly} (h : Reads ls a) : FirstPass ls (.ok a)
  /-- The lines in front of one are accepted, and that one is refused. -/
  | refused {before after : List Text} {t : Text} {a b : Assembly} {f : Fault}
      (hls : ls = before ++ t :: after) (h : Reads before a)
      (hadd : Added a before.length t b (some f)) :
      FirstPass ls (.error (.line before.length f))

/-- The pass goes on from what has been read. -/
theorem Reads.addLines {ls : List Text} {a : Assembly} (h : Reads ls a) (ts : List Text) :
    FirstPass (ls ++ ts) (a.addLines ls.length ts) := by
  induction ts generalizing ls a with
  | nil =>
    rw [List.append_nil]
    exact .complete h
  | cons t ts ih =>
    have hadd := added_addLine a ls.length t
    rw [Assembly.addLines]
    split
    · rename_i b hb
      rw [hb] at hadd
      have := ih (h.accepted hadd)
      rwa [List.append_assoc, List.singleton_append, List.length_append,
        List.length_singleton] at this
    · rename_i b f hb
      rw [hb] at hadd
      exact .refused rfl h hadd

/-- **The first pass over a source text.** -/
theorem firstPass (ls : List Text) : FirstPass ls (empty.addLines 0 ls) := Reads.empty.addLines ls

/-! ### Both passes -/

/-- The ends of assembling some lines. -/
inductive Assembled (ls : List Text) : Except AssemblyFault Program → Prop
  /-- All lines are accepted and all references resolved. -/
  | linked {a : Assembly} {p : Program} (h : Reads ls a) (hp : a.link = .ok p) :
      Assembled ls (.ok p)
  /-- All lines are accepted, and a reference cannot be resolved. -/
  | unlinked {a : Assembly} {f : Fault} (h : Reads ls a) (hf : a.link = .error f) :
      Assembled ls (.error (.link f))
  /-- A line is refused. -/
  | refused {before after : List Text} {t : Text} {a b : Assembly} {f : Fault}
      (hls : ls = before ++ t :: after) (h : Reads before a)
      (hadd : Added a before.length t b (some f)) :
      Assembled ls (.error (.line before.length f))

/-- **Assembling a source text** has one of the three ends. -/
theorem assembled (source : Text) : Assembled source.lines (assemble source) := by
  have hfirst := firstPass source.lines
  rw [assemble]
  generalize empty.addLines 0 source.lines = result at hfirst ⊢
  cases hfirst with
  | refused hls h hadd => exact .refused hls h hadd
  | @complete a h =>
    simp only
    cases hlink : a.link with
    | error f => exact .unlinked h hlink
    | ok p => exact .linked h hlink

end Assembly

end Octasm
