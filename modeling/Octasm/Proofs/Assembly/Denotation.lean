import Octasm.Proofs.Assembly.FirstPass
import Octasm.Proofs.Assembly.Link

/-!
# What a source text stands for

An assembly runs over the lines with a state and goes back to the label references at the end. What
it makes of a text can be said without either. Every line has an offset, which is the number of
bytes in front of it; spans, labels and source map list these offsets, and a reference stands for
the offset of the line that declares its label, wherever that line is.

## Main definitions

* `Source.Resolves`: the byte that a slot stands for
* `Source.Denotes`: the program that lines stand for

## Main results

* `Source.Denotes.unique`: lines stand for one program at most
* `assemble_denotes`: an assembled program is the one that its lines stand for
-/

namespace Octasm

namespace Source

/-- A byte stands for itself, and a reference for the offset of the one line that declares its
label. -/
def Resolves (ls : List Text) : Slot → UInt8 → Prop
  | .byte b, c => c = b
  | .label name, c =>
    ∃ j, Declares ls j name ∧ (∀ k, Declares ls k name → k = j) ∧ c.toNat = offset ls j

/-- The program that some lines stand for. -/
structure Denotes (ls : List Text) (p : Program) : Prop where
  lines : ∀ t ∈ ls, Line.Accepted t
  /-- Every line has a span, from its offset on and as long as its bytes. -/
  spans : p.spans = ls.mapIdx fun i t => ⟨offset ls i, offset ls i + (Line.slots t).length⟩
  /-- The labels as written, in the order of the lines. -/
  labels : p.labels = ls.zipIdx.filterMap fun x => (Line.label? x.1).map fun l => (l, offset ls x.2)
  /-- Every line with a mnemonic other than `DB` has an entry. -/
  sourceMap : p.sourceMap.entries =
    (ls.zipIdx.filter fun x => (Line.mnemonic? x.1).any fun m => m != .db).map
      fun x => (offset ls x.2, x.2)
  /-- No two entries have one address. -/
  sourceMap_ascending : p.sourceMap.entries.Pairwise fun x y => x.1 < y.1
  /-- The bytes of the lines one after the other, each reference resolved. -/
  code : List.Forall₂ (Resolves ls) (ls.flatMap Line.slots) p.code

variable {ls : List Text} {s : Slot} {b c : UInt8} {p q : Program}

/-- A slot stands for one byte at most. -/
theorem Resolves.unique (hb : Resolves ls s b) (hc : Resolves ls s c) : b = c := by
  cases s with
  | byte d => exact (show b = d from hb).trans (show c = d from hc).symm
  | label name =>
    obtain ⟨j, -, hj, hb⟩ := hb
    obtain ⟨k, hk, -, hc⟩ := hc
    obtain rfl := hj k hk
    exact UInt8.toNat_inj.mp (hb.trans hc.symm)

/-- **Lines stand for one program at most.** -/
theorem Denotes.unique (hp : Denotes ls p) (hq : Denotes ls q) : p = q := by
  have hcode : p.code = q.code :=
    List.right_unique_forall₂' (fun _ _ _ hb hc => hb.unique hc) hp.code hq.code
  have hmap : p.sourceMap.entries = q.sourceMap.entries := hp.sourceMap.trans hq.sourceMap.symm
  have hlabels : p.labels = q.labels := hp.labels.trans hq.labels.symm
  have hspans : p.spans = q.spans := hp.spans.trans hq.spans.symm
  obtain ⟨_, ⟨_⟩, _, _⟩ := p
  obtain ⟨_, ⟨_⟩, _, _⟩ := q
  simp only at hcode hmap hlabels hspans
  rw [hcode, hmap, hlabels, hspans]

/-- The lines of a source text have ascending indices, so none takes the place of another. -/
theorem spansOf_calls (ls : List Text) :
    spansOf (calls ls) = (place 0 (calls ls)).map Placed.span := by
  induction ls using List.reverseRecOn with
  | nil => rfl
  | append_singleton ls t ih =>
    have hlen : (spansOf (calls ls)).length = ls.length := by
      rw [ih, List.length_map, place_calls, List.length_mapIdx]
    rw [calls_concat, spansOf_concat, place_concat, List.map_append, ← ih, Nat.zero_add]
    simp only [← hlen, Span.record_length]
    rfl

end Source

namespace Assembly

variable {ls : List Text} {a : Assembly} {s : Slot} {b : UInt8}

/-- With the label table of the whole text, a slot is resolved to what it stands for. -/
theorem Reads.resolves (h : Reads ls a) (hs : resolve a.labels s = .ok b) :
    Source.Resolves ls s b := by
  rcases resolve_eq_ok_iff.mp hs with rfl | ⟨name, k, rfl, hk, hle, rfl⟩
  · exact rfl
  · obtain ⟨j, hj, rfl⟩ := h.address?_eq_some_iff.mp hk
    refine ⟨j, hj, fun i hi => h.declares_unique hi hj, ?_⟩
    rw [UInt8.toNat_ofNat']
    exact Nat.mod_eq_of_lt (Nat.lt_succ_of_le hle)

/-- Linking turns a text that has been read into the program that it stands for. -/
theorem Reads.denotes {p : Program} (h : Reads ls a) (hp : a.link = .ok p) :
    Source.Denotes ls p := by
  obtain ⟨hcode, hmap, -, hspans⟩ := link_eq_ok_iff.mp hp
  refine ⟨fun t ht => h.lines ht, ?_, ?_, ?_, ?_, ?_⟩
  · rw [hspans, h.tracks.spans, Source.spansOf_calls, Source.place_calls,
      List.mapIdx_eq_zipIdx_map, List.map_map, List.mapIdx_eq_zipIdx_map]
    rfl
  · rw [h.tracks.labels_link hp, h.labels, Source.place_calls, List.mapIdx_eq_zipIdx_map,
      List.filterMap_map]
    rfl
  · rw [hmap, h.tracks.entries, Source.place_calls, List.mapIdx_eq_zipIdx_map, List.filter_map,
      List.map_map]
    rfl
  · rw [hmap, h.tracks.sourceMap]
    exact entries_pairwise _
  · rw [← h.code]
    exact hcode.imp fun _ _ hs => h.resolves hs

end Assembly

/-- **An assembled program is the one that its lines stand for**, and no other program is. -/
theorem assemble_denotes {source : Text} {p : Program} (h : assemble source = .ok p) :
    Source.Denotes source.lines p ∧ ∀ q, Source.Denotes source.lines q → q = p := by
  have hend := Assembly.assembled source
  rw [h] at hend
  cases hend with
  | linked hreads hp => exact ⟨hreads.denotes hp, fun q hq => hq.unique (hreads.denotes hp)⟩

/-- References forwards and backwards, over a line of data. -/
theorem denotes_jumps :
    ∃ p, assemble "top: JMP END\n DB \"x\"\nend: JMP TOP".toList = .ok p ∧
      p.code = [103, 3, 120, 103, 0] ∧
      Source.Denotes ["top: JMP END".toList, " DB \"x\"".toList, "end: JMP TOP".toList] p := by
  have h : assemble "top: JMP END\n DB \"x\"\nend: JMP TOP".toList
      = .ok ⟨[103, 3, 120, 103, 0], ⟨[(0, 0), (3, 2)]⟩, [("top".toList, 0), ("end".toList, 3)],
        [⟨0, 2⟩, ⟨2, 3⟩, ⟨3, 5⟩]⟩ := by decide +kernel
  exact ⟨_, h, rfl, (assemble_denotes h).1⟩

end Octasm
