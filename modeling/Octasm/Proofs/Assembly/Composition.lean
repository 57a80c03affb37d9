import Octasm.Proofs.Assembly.Denotation
import Octasm.Proofs.Assembly.Verdict

/-!
# Lines behind other lines

Two claims about assembling are proved here once, for all statements that compare the assembly of
one text with that of another.

The first is that lines which are all accepted lead to one state, `Source.state`, and that this
state is built from the lines in pieces: the lines of a second text, behind those of a first, give
what they give by themselves, with every index and every address moved up. Only the labels make the
two texts depend on each other, and `Source.Accepted` says how: they have to be different.

The second is that a text has one end. Whoever shows that the lines of a text can be read, and what
becomes of linking them, has computed `assemble`.

## Main definitions

* `Placed.moved`: a line with its index and its address moved up
* `Source.state`: the state that accepted lines lead to
* `Source.Accepted`: every line is accepted behind those above it
* `Source.Apart`: two texts share no label

## Main results

* `Source.place_calls_append`: lines behind other lines are moved lines
* `Assembly.reads_iff`: the lines that can be read, and the state that they lead to
* `Source.accepted_append_iff`: when a text is accepted behind another
* `assemble_eq_iff`: the ends of assembling determine the result
-/

namespace Octasm

/-! ### Moved lines -/

namespace Placed

/-- The line `n` places further down and `k` addresses further up. -/
def moved (n k : Nat) (e : Placed) : Placed := ⟨e.index + n, e.address + k, e.text⟩

variable (n k : Nat) (e : Placed)

theorem span_moved : (e.moved n k).span = ⟨e.span.start + k, e.span.stop + k⟩ := by
  simp only [span, stop, moved, Nat.add_right_comm]

theorem instruction?_moved :
    (e.moved n k).instruction? = e.instruction?.map fun x => (x.1 + k, x.2 + n) := by
  cases h : Line.isInstruction e.text <;> simp [instruction?, moved, h]

theorem label?_moved : (e.moved n k).label? = e.label?.map fun x => (x.1, x.2 + k) := by
  simp [label?, moved, Function.comp_def]

end Placed

namespace Source

variable {xs ys ls : List Text} {t : Text}

/-- An offset behind some lines is their length and the offset behind them. -/
theorem offset_append (xs ys : List Text) (i : Nat) :
    offset (xs ++ ys) (i + xs.length) = offset ys i + (xs.flatMap Line.slots).length := by
  have htake : (xs ++ ys).take (i + xs.length) = xs ++ ys.take i := by
    rw [List.take_append, List.take_of_length_le (Nat.le_add_left _ _), Nat.add_sub_cancel]
  rw [offset_eq_length, htake, List.flatMap_append, List.length_append, offset_eq_length,
    Nat.add_comm]

/-- **Lines behind other lines** stand where they stand by themselves, moved up. -/
theorem place_calls_append (xs ys : List Text) :
    place 0 (calls (xs ++ ys)) = place 0 (calls xs)
      ++ (place 0 (calls ys)).map (Placed.moved xs.length (xs.flatMap Line.slots).length) := by
  rw [place_calls, place_calls, place_calls, List.mapIdx_append]
  congr 1
  · refine List.mapIdx_eq_mapIdx_iff.mpr fun i hi => ?_
    rw [offset_append_of_le (Nat.le_of_lt hi)]
  · simp only [offset_append, List.mapIdx_eq_zipIdx_map, List.map_map]
    rfl

/-! ### The state of accepted lines -/

/-- The bytes of some lines, with their references open. -/
def slots (ls : List Text) : List Slot := ls.flatMap Line.slots

/-- The lines of the instructions, by address. -/
def entries (ls : List Text) : List (Nat × Nat) :=
  (place 0 (calls ls)).filterMap Placed.instruction?

/-- The labels as written, in the order of the lines. -/
def names (ls : List Text) : List Text := ls.filterMap Line.label?

/-- The labels with their addresses, in the order of the lines. -/
def labels (ls : List Text) : List (Text × Nat) := (place 0 (calls ls)).filterMap Placed.label?

/-- The spans of the lines. -/
def spans (ls : List Text) : List Span := (place 0 (calls ls)).map Placed.span

/-- The state that the lines lead to if all of them are accepted. -/
def state (ls : List Text) : Assembly := ⟨slots ls, ⟨entries ls⟩, ⟨labels ls⟩, spans ls⟩

theorem slots_append (xs ys : List Text) : slots (xs ++ ys) = slots xs ++ slots ys :=
  List.flatMap_append

theorem entries_append (xs ys : List Text) :
    entries (xs ++ ys) = entries xs
      ++ (entries ys).map fun x => (x.1 + (slots xs).length, x.2 + xs.length) := by
  rw [entries, place_calls_append, List.filterMap_append, List.filterMap_map, entries, entries,
    List.map_filterMap]
  congr 2
  funext e
  exact e.instruction?_moved _ _

theorem labels_append (xs ys : List Text) :
    labels (xs ++ ys)
      = labels xs ++ (labels ys).map fun x => (x.1, x.2 + (slots xs).length) := by
  rw [labels, place_calls_append, List.filterMap_append, List.filterMap_map, labels, labels,
    List.map_filterMap]
  congr 2
  funext e
  exact e.label?_moved _ _

theorem spans_append (xs ys : List Text) :
    spans (xs ++ ys) = spans xs ++ (spans ys).map fun s =>
      ⟨s.start + (slots xs).length, s.stop + (slots xs).length⟩ := by
  rw [spans, place_calls_append, List.map_append, List.map_map, spans, spans, List.map_map]
  congr 2
  funext e
  exact e.span_moved _ _

/-- There is one span for every line. -/
theorem length_spans (ls : List Text) : (spans ls).length = ls.length := by
  rw [spans, List.length_map, place_calls, List.length_mapIdx]

/-- The names in the table are the labels of the lines. -/
theorem map_fst_labels (ls : List Text) : (labels ls).map Prod.fst = names ls := by
  have hname : ∀ e : Placed, e.label?.map Prod.fst = Line.label? e.text := by
    intro e
    rw [Placed.label?, Option.map_map]
    exact Option.map_id' (x := Line.label? e.text)
  have htext : (place 0 (calls ls)).map Placed.text = ls := by
    rw [place_calls, List.mapIdx_eq_zipIdx_map, List.map_map]
    exact List.zipIdx_map_fst 0 ls
  conv_rhs => rw [names, ← htext, List.filterMap_map]
  rw [labels, List.map_filterMap]
  simp only [hname]
  rfl

/-- The entries of the source map belong to the lines. -/
theorem snd_lt_of_mem_entries {x : Nat × Nat} (h : x ∈ entries ls) : x.2 < ls.length := by
  obtain ⟨e, he, hx⟩ := List.mem_filterMap.mp h
  obtain ⟨-, rfl⟩ := Placed.instruction?_eq_some_iff.mp hx
  rw [place_calls] at he
  obtain ⟨i, hi, rfl⟩ := List.mem_mapIdx.mp he
  exact hi

/-- The entries of the source map belong to bytes of the code. -/
theorem fst_lt_of_mem_entries {x : Nat × Nat} (h : x ∈ entries ls) :
    x.1 < (slots ls).length := by
  rw [slots, ← codeOf_calls]
  exact lt_of_mem_entries h

/-! ### Accepted texts -/

/-- Every line is accepted behind those above it. -/
structure Accepted (ls : List Text) : Prop where
  lines : ∀ t ∈ ls, Line.Accepted t
  unreserved : ∀ l ∈ names ls, Register.ofText? l = none
  distinct : (names ls).Pairwise fun l m => ¬ Text.SameName l m

/-- No name is declared in both texts. -/
def Apart (xs ys : List Text) : Prop := ∀ l ∈ names xs, ∀ m ∈ names ys, ¬ Text.SameName l m

theorem names_append (xs ys : List Text) : names (xs ++ ys) = names xs ++ names ys :=
  List.filterMap_append

/-- The names of the label tables are apart as well. -/
theorem apart_iff :
    Apart xs ys ↔ ∀ x ∈ labels xs, ∀ y ∈ labels ys, ¬ Text.SameName x.1 y.1 := by
  simp only [Apart, ← map_fst_labels, List.forall_mem_map]

/-- **A text is accepted behind another** if both are accepted and share no label. -/
theorem accepted_append_iff :
    Accepted (xs ++ ys) ↔ Accepted xs ∧ Accepted ys ∧ Apart xs ys := by
  constructor
  · rintro ⟨hlines, hunreserved, hdistinct⟩
    rw [names_append] at hunreserved hdistinct
    obtain ⟨hxs, hys, hcross⟩ := List.pairwise_append.mp hdistinct
    refine ⟨⟨fun t ht => hlines t (List.mem_append_left _ ht),
      fun l hl => hunreserved l (List.mem_append_left _ hl), hxs⟩,
      ⟨fun t ht => hlines t (List.mem_append_right _ ht),
        fun l hl => hunreserved l (List.mem_append_right _ hl), hys⟩, hcross⟩
  · rintro ⟨hxs, hys, hcross⟩
    refine ⟨fun t ht => ?_, fun l hl => ?_, ?_⟩
    · exact (List.mem_append.mp ht).elim (hxs.lines t) (hys.lines t)
    · rw [names_append] at hl
      exact (List.mem_append.mp hl).elim (hxs.unreserved l) (hys.unreserved l)
    · rw [names_append]
      exact List.pairwise_append.mpr ⟨hxs.distinct, hys.distinct, hcross⟩

end Source

namespace Assembly

open Source

variable {ls : List Text} {a b : Assembly} {t : Text}

/-- Reading lines leads to their state. -/
theorem Reads.eq_state (h : Reads ls a) : a = state ls := by
  have hcode : a.code = slots ls := h.code
  have hmap : a.sourceMap.entries = entries ls := h.tracks.sourceMap
  have hlabels : a.labels.entries = Source.labels ls := h.labels
  have hspans : a.spans = Source.spans ls := h.tracks.spans.trans (spansOf_calls ls)
  obtain ⟨_, ⟨_⟩, ⟨_⟩, _⟩ := a
  simp only at hcode hmap hlabels hspans
  rw [hcode, hmap, hlabels, hspans, state]

/-- Lines that have been read are accepted. -/
theorem Reads.accepts (h : Reads ls a) : Source.Accepted ls := by
  have hnames : a.labels.entries.map Prod.fst = Source.names ls := by
    rw [h.labels]
    exact map_fst_labels ls
  refine ⟨fun t ht => h.lines ht, fun l hl => ?_, ?_⟩
  · rw [← hnames] at hl
    obtain ⟨x, hx, rfl⟩ := List.mem_map.mp hl
    exact h.tracks.labels_unreserved x hx
  · rw [← hnames]
    exact List.pairwise_map.mpr h.tracks.labels_distinct

/-- A further line with a new label can be read. -/
theorem Reads.concat (h : Reads ls a) (ht : Source.Accepted (ls ++ [t])) :
    ∃ b, Reads (ls ++ [t]) b := by
  obtain ⟨s, e, hs, he⟩ := ht.lines t (List.mem_append_right _ (List.mem_singleton.mpr rfl))
  obtain ⟨-, hself, hcross⟩ := accepted_append_iff.mp ht
  have hname : ∀ name ∈ s.label, name ∈ Source.names [t] := by
    intro name hn
    rw [Source.names, List.filterMap_cons, Line.label?_of_ofText hs,
      show s.label = some name from hn]
    exact List.mem_cons_self ..
  have hfree : ∀ name ∈ s.label,
      a.labels.address? name = none ∧ Register.ofText? name = none := by
    intro name hn
    refine ⟨Labels.address?_eq_none_iff.mpr fun x hx => ?_, hself.unreserved _ (hname name hn)⟩
    refine hcross x.1 ?_ name (hname name hn)
    rw [← map_fst_labels ls, ← show a.labels.entries = Source.labels ls from h.labels]
    exact List.mem_map_of_mem hx
  exact ⟨_, h.accepted (.accepted hs (declare_eq_ok_iff.mpr ⟨hfree, rfl⟩) he)⟩

/-- **The lines that can be read** are the accepted ones, and they lead to their state. -/
theorem reads_iff : Reads ls a ↔ Source.Accepted ls ∧ a = state ls := by
  refine ⟨fun h => ⟨h.accepts, h.eq_state⟩, ?_⟩
  rintro ⟨hls, rfl⟩
  -- from the front, because the state below a line is that of the lines above it
  have hread : ∃ b, Reads ls b := by
    induction ls using List.reverseRecOn with
    | nil => exact ⟨_, Reads.empty⟩
    | append_singleton ls t ih =>
      obtain ⟨b, hb⟩ := ih (accepted_append_iff.mp hls).1
      exact hb.concat hls
  obtain ⟨b, hb⟩ := hread
  rwa [← hb.eq_state]

theorem reads_state (h : Source.Accepted ls) : Reads ls (state ls) := reads_iff.mpr ⟨h, rfl⟩

/-- A program has the labels of its lines. -/
theorem labels_of_link {p : Program} (h : Source.Accepted ls) (hp : (state ls).link = .ok p) :
    p.labels = Source.labels ls :=
  (reads_state h).tracks.labels_link hp

/-! ### References of the lines in front -/

/-- A name that is declared in front keeps its address. -/
theorem address?_front {xs : List Text} (ys : List Text) {name : Text} {k : Nat}
    (h : (state xs).labels.address? name = some k) :
    (state (xs ++ ys)).labels.address? name = some k := by
  have hfront : (Labels.mk (Source.labels xs)).address? name = some k := h
  simp only [state, labels_append, Labels.address?_append, hfront, Option.some_or]

/-- A reference that is resolved in front is resolved to the same byte. -/
theorem resolve_front {xs : List Text} (ys : List Text) {s : Slot} {c : UInt8}
    (h : resolve (state xs).labels s = .ok c) : resolve (state (xs ++ ys)).labels s = .ok c := by
  rcases resolve_eq_ok_iff.mp h with rfl | ⟨name, k, rfl, hk, hle, rfl⟩
  · rfl
  · exact resolve_eq_ok_iff.mpr (Or.inr ⟨name, k, rfl, address?_front ys hk, hle, rfl⟩)

/-- **The image of the lines in front** is the front of the image. -/
theorem code_eq_append {xs ys : List Text} {p r : Program} (hp : (state xs).link = .ok p)
    (hr : (state (xs ++ ys)).link = .ok r) :
    ∃ back, r.code = p.code ++ back ∧
      List.Forall₂ (fun s c => resolve (state (xs ++ ys)).labels s = .ok c) (slots ys) back := by
  obtain ⟨hpcode, -⟩ := link_eq_ok_iff.mp hp
  obtain ⟨hrcode, -⟩ := link_eq_ok_iff.mp hr
  rw [show (state (xs ++ ys)).code = slots xs ++ slots ys from slots_append xs ys] at hrcode
  have hfront := List.forall₂_take (slots xs).length hrcode
  have hback := List.forall₂_drop (slots xs).length hrcode
  rw [List.take_left] at hfront
  rw [List.drop_left] at hback
  have htake : r.code.take (slots xs).length = p.code := by
    refine List.right_unique_forall₂' (fun s c d hc hd => ?_) hfront
      (hpcode.imp fun s c hc => resolve_front ys hc)
    exact Except.ok.inj (hc.symm.trans hd)
  refine ⟨r.code.drop (slots xs).length, ?_, hback⟩
  rw [← htake, List.take_append_drop]

/-- **Linking fails behind the lines in front**, at the first reference there that fails. -/
theorem link_append_eq_error_iff {xs : List Text} (ys : List Text) {p : Program} {f : Fault}
    (hp : (state xs).link = .ok p) :
    (state (xs ++ ys)).link = .error f ↔
      ∃ before s after, slots ys = before ++ s :: after ∧
        resolve (state (xs ++ ys)).labels s = .error f ∧
        ∀ u ∈ before, ∃ c, resolve (state (xs ++ ys)).labels u = .ok c := by
  have hfront : ∀ s ∈ slots xs, ∃ c, resolve (state (xs ++ ys)).labels s = .ok c := by
    intro s hs
    obtain ⟨c, hc⟩ := Fallible.exists_ok_of_mem (link_eq_ok_iff.mp hp).1 hs
    exact ⟨c, resolve_front ys hc⟩
  have hcode : (state (xs ++ ys)).code = slots xs ++ slots ys := slots_append xs ys
  rw [link_eq_error_iff, ← Fallible.mapM_eq_error_iff, hcode,
    Fallible.mapM_append_eq_error_iff hfront, Fallible.mapM_eq_error_iff]

/-! ### Refused lines -/

/-- A line that is refused is one of the lines. -/
theorem Assembled.index_lt {f : Fault} {i : Nat} (h : Assembled ls (.error (.line i f))) :
    i < ls.length := by
  cases h with
  | refused hls _ _ =>
    rw [hls, List.length_append, List.length_cons]
    omega

/-- A line of two texts is in the first, or in the second. -/
theorem append_eq_append_cons {α : Type} {xs ys before after : List α} {t : α}
    (h : xs ++ ys = before ++ t :: after) :
    (∃ mid, xs = before ++ t :: mid) ∨ ∃ mid, before = xs ++ mid ∧ ys = mid ++ t :: after := by
  rcases List.append_eq_append_iff.mp h with hsecond | ⟨mid, rfl, hafter⟩
  · exact Or.inr hsecond
  · cases mid with
    | nil => exact Or.inr ⟨[], by simp, hafter.symm⟩
    | cons u mid =>
      obtain ⟨rfl, -⟩ := List.cons.inj hafter
      exact Or.inl ⟨mid, rfl⟩

/-- **A line is refused for itself and what is above it**, and what is below does not matter. -/
theorem assembled_append_line_iff {xs ys : List Text} {f : Fault} {i : Nat} (hi : i < xs.length) :
    Assembled (xs ++ ys) (.error (.line i f)) ↔ Assembled xs (.error (.line i f)) := by
  constructor
  · intro h
    cases h with
    | refused hls h hadd =>
      rcases append_eq_append_cons hls with ⟨mid, hxs⟩ | ⟨mid, rfl, -⟩
      · exact .refused hxs h hadd
      · rw [List.length_append] at hi
        omega
  · intro h
    cases h with
    | @refused before after t a b _ hls h hadd =>
      have hsplit : xs ++ ys = before ++ t :: (after ++ ys) := by
        rw [hls, List.append_assoc, List.cons_append]
      exact .refused hsplit h hadd

/-! ### One end -/

/-- Lines have one end. -/
theorem Assembled.unique {x y : Except AssemblyFault Program} (hx : Assembled ls x)
    (hy : Assembled ls y) : x = y := by
  have hfault := hx.verdict.unique hy.verdict
  cases x with
  | error e =>
    cases y with
    | error f => rw [Option.some.inj hfault]
    | ok q => cases hfault
  | ok p =>
    cases y with
    | error f => cases hfault
    | ok q =>
      cases hx with
      | linked hr hp =>
        cases hy with
        | linked hr' hq => rw [(hr.denotes hp).unique (hr'.denotes hq)]

end Assembly

/-- **A text has one end**, and it is the result of assembling it. -/
theorem assemble_eq_iff {source : Text} {result : Except AssemblyFault Program} :
    assemble source = result ↔ Assembly.Assembled source.lines result := by
  constructor
  · rintro rfl
    exact Assembly.assembled source
  · exact (Assembly.assembled source).unique

/-- An assembled text is accepted, and its program is its linked state. -/
theorem assemble_eq_ok_iff {source : Text} {p : Program} :
    assemble source = .ok p ↔
      Source.Accepted source.lines ∧ (Source.state source.lines).link = .ok p := by
  rw [assemble_eq_iff]
  constructor
  · rintro (⟨h, hp⟩ | _ | _)
    exact ⟨h.accepts, h.eq_state ▸ hp⟩
  · rintro ⟨h, hp⟩
    exact .linked (Assembly.reads_state h) hp

/-- A text with an open reference is accepted, and linking its state fails. -/
theorem assemble_eq_link_iff {source : Text} {f : Fault} :
    assemble source = .error (.link f) ↔
      Source.Accepted source.lines ∧ (Source.state source.lines).link = .error f := by
  rw [assemble_eq_iff]
  constructor
  · rintro (_ | ⟨h, hf⟩ | _)
    exact ⟨h.accepts, h.eq_state ▸ hf⟩
  · rintro ⟨h, hf⟩
    exact .unlinked (Assembly.reads_state h) hf

/-- An accepted text fails at a reference if it fails. -/
theorem Source.Accepted.exists_eq_link {source : Text} {e : AssemblyFault}
    (h : Source.Accepted source.lines) (he : assemble source = .error e) :
    ∃ f, e = .link f ∧ (Source.state source.lines).link = .error f := by
  cases hlink : (Source.state source.lines).link with
  | ok p => cases he.symm.trans (assemble_eq_ok_iff.mpr ⟨h, hlink⟩)
  | error f =>
    exact ⟨f, Except.error.inj (he.symm.trans (assemble_eq_link_iff.mpr ⟨h, hlink⟩)), rfl⟩

end Octasm
