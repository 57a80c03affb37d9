import Octasm.Proofs.Line
import Mathlib.Data.List.Induction

/-!
# Where lines stand

Accepted lines fill the image one after the other, so the address of each follows from the lengths
of those in front of it. `place` computes these addresses for any list of lines, whatever indices
they were added under; `Source.offset` is the same for a source text, whose lines have the indices
`0, 1, 2, …`.

Neither looks at the state of an assembly. What a state holds is said in terms of them.

## Main definitions

* `Call`, `Placed`: a line with its index, and the same with its address
* `place`: the addresses of lines that stand one behind the other
* `Source.offset`, `Source.Declares`: addresses and labels of the lines of a source text

## Main results

* `place_append`: what is added behind some lines stands behind their bytes
* `place_pairwise`: lines do not overlap
* `place_calls`: the lines of a source text stand at their offsets
-/

namespace Octasm

/-- A line that is added under an index. -/
structure Call where
  index : Nat
  text : Text
  deriving DecidableEq, Repr

/-- A line with its index and the address of its first byte. -/
structure Placed where
  index : Nat
  address : Nat
  text : Text
  deriving DecidableEq, Repr

namespace Placed

/-- The address behind the last byte of the line. -/
def stop (e : Placed) : Nat := e.address + (Line.slots e.text).length

/-- The stretch of the image that the line fills. -/
def span (e : Placed) : Span := ⟨e.address, e.stop⟩

/-- The entry of the source map that the line makes, if it has an instruction. -/
def instruction? (e : Placed) : Option (Nat × Nat) :=
  if Line.isInstruction e.text then some (e.address, e.index) else none

/-- The label that the line declares, with its address. -/
def label? (e : Placed) : Option (Text × Nat) := (Line.label? e.text).map fun l => (l, e.address)

/-- A line fills nothing if it adds nothing. -/
theorem isEmpty_span_iff {e : Placed} : e.span.isEmpty = true ↔ Line.slots e.text = [] := by
  rw [Span.isEmpty, decide_eq_true_eq, ← List.length_eq_zero_iff]
  simp only [span, stop]
  omega

theorem address_le_stop (e : Placed) : e.address ≤ e.stop := Nat.le_add_right _ _

theorem instruction?_eq_some_iff {e : Placed} {x : Nat × Nat} :
    e.instruction? = some x ↔ Line.isInstruction e.text = true ∧ x = (e.address, e.index) := by
  rw [instruction?, Option.ite_none_right_eq_some, Option.some.injEq]
  exact and_congr_right fun _ => eq_comm

theorem label?_eq_some_iff {e : Placed} {x : Text × Nat} :
    e.label? = some x ↔ Line.label? e.text = some x.1 ∧ x.2 = e.address := by
  rw [label?, Option.map_eq_some_iff]
  constructor
  · rintro ⟨l, hl, rfl⟩
    exact ⟨hl, rfl⟩
  · rintro ⟨hl, ha⟩
    exact ⟨x.1, hl, by rw [← ha]⟩

/-- A line with an instruction fills at least one byte. -/
theorem address_lt_stop {e : Placed} (h : Line.isInstruction e.text = true) : e.address < e.stop :=
  Nat.lt_add_of_pos_right (List.length_pos_iff.mpr (Line.slots_ne_nil h))

end Placed

/-- The entries of accepted lines are those of the lines with a mnemonic other than `DB`. -/
theorem filterMap_instruction? {es : List Placed} (h : ∀ e ∈ es, Line.Accepted e.text) :
    es.filterMap Placed.instruction?
      = (es.filter fun e => (Line.mnemonic? e.text).any fun m => m != .db).map
          fun e => (e.address, e.index) := by
  rw [← List.filterMap_eq_map, List.filterMap_filter]
  refine List.filterMap_congr fun e he => ?_
  rw [← Line.isInstruction_eq (h e he)]
  rfl

/-! ### Lines one behind the other -/

/-- The bytes of some lines, with their label references open. -/
def codeOf (log : List Call) : List Slot := log.flatMap fun c => Line.slots c.text

/-- Lines that stand one behind the other from an address on. -/
def place (address : Nat) : List Call → List Placed
  | [] => []
  | c :: log => ⟨c.index, address, c.text⟩ :: place (address + (Line.slots c.text).length) log

@[simp] theorem place_nil (address : Nat) : place address [] = [] := rfl

@[simp] theorem place_cons (address : Nat) (c : Call) (log : List Call) :
    place address (c :: log)
      = ⟨c.index, address, c.text⟩ :: place (address + (Line.slots c.text).length) log := rfl

@[simp] theorem codeOf_nil : codeOf [] = [] := rfl

@[simp] theorem codeOf_cons (c : Call) (log : List Call) :
    codeOf (c :: log) = Line.slots c.text ++ codeOf log := rfl

theorem codeOf_append (log log' : List Call) : codeOf (log ++ log') = codeOf log ++ codeOf log' :=
  List.flatMap_append

theorem place_append (address : Nat) (log log' : List Call) :
    place address (log ++ log')
      = place address log ++ place (address + (codeOf log).length) log' := by
  induction log generalizing address with
  | nil => rfl
  | cons c log ih =>
    rw [List.cons_append, place_cons, place_cons, ih, codeOf_cons, List.length_append,
      List.cons_append, Nat.add_assoc]

/-- A line added behind others stands right behind their bytes. -/
theorem place_concat (address : Nat) (log : List Call) (c : Call) :
    place address (log ++ [c])
      = place address log ++ [⟨c.index, address + (codeOf log).length, c.text⟩] :=
  place_append address log [c]

theorem map_index_place (address : Nat) (log : List Call) :
    (place address log).map Placed.index = log.map Call.index := by
  induction log generalizing address with
  | nil => rfl
  | cons c log ih => rw [place_cons, List.map_cons, List.map_cons, ih]

theorem mem_of_mem_place {address : Nat} {log : List Call} {e : Placed}
    (h : e ∈ place address log) : (⟨e.index, e.text⟩ : Call) ∈ log := by
  induction log generalizing address with
  | nil => cases h
  | cons c log ih =>
    rcases List.mem_cons.mp h with rfl | h
    · exact List.mem_cons_self ..
    · exact List.mem_cons_of_mem c (ih h)

/-- Every line stands between the first address and the end of the code. -/
theorem bounds_of_mem_place {address : Nat} {log : List Call} {e : Placed}
    (h : e ∈ place address log) :
    address ≤ e.address ∧ e.stop ≤ address + (codeOf log).length := by
  induction log generalizing address with
  | nil => cases h
  | cons c log ih =>
    rw [codeOf_cons, List.length_append]
    rcases List.mem_cons.mp h with rfl | h
    · simp only [Placed.stop]
      omega
    · have := ih h
      omega

/-- Lines do not overlap: each ends before the next begins. -/
theorem place_pairwise (address : Nat) (log : List Call) :
    (place address log).Pairwise fun e f => e.stop ≤ f.address := by
  induction log generalizing address with
  | nil => exact List.Pairwise.nil
  | cons c log ih =>
    refine List.Pairwise.cons (fun e he => ?_) (ih _)
    exact (bounds_of_mem_place he).1

/-- The bytes of a line are those of the code at its address. -/
theorem slots_of_mem_place {log : List Call} {e : Placed} (h : e ∈ place 0 log) :
    ((codeOf log).drop e.address).take (e.stop - e.address) = Line.slots e.text := by
  obtain ⟨log₁, c, log₂, rfl, rfl⟩ : ∃ log₁ c log₂, log = log₁ ++ c :: log₂ ∧
      e = ⟨c.index, (codeOf log₁).length, c.text⟩ := by
    induction log using List.reverseRecOn with
    | nil => cases h
    | append_singleton log c ih =>
      rw [place_concat, Nat.zero_add] at h
      rcases List.mem_append.mp h with h | h
      · obtain ⟨log₁, c', log₂, rfl, he⟩ := ih h
        exact ⟨log₁, c', log₂ ++ [c], by simp, he⟩
      · exact ⟨log, c, [], rfl, List.mem_singleton.mp h⟩
  rw [codeOf_append, codeOf_cons, List.drop_left, Placed.stop, Nat.add_sub_cancel_left,
    List.take_left]

/-! ### Source texts -/

namespace Source

/-- The lines of a source text as calls: each has its position as index. -/
def calls (ls : List Text) : List Call := ls.mapIdx Call.mk

/-- The address of a line: how many bytes the lines in front of it have together. -/
def offset (ls : List Text) (i : Nat) : Nat :=
  (ls.take i).foldr (fun t sum => (Line.slots t).length + sum) 0

/-- A line declares a label whose name is this one in some case. -/
def Declares (ls : List Text) (i : Nat) (name : Text) : Prop :=
  ∃ t l, ls[i]? = some t ∧ Line.label? t = some l ∧ Text.SameName l name

theorem calls_concat (ls : List Text) (t : Text) :
    calls (ls ++ [t]) = calls ls ++ [⟨ls.length, t⟩] :=
  List.mapIdx_concat

theorem codeOf_calls (ls : List Text) : codeOf (calls ls) = ls.flatMap Line.slots := by
  induction ls using List.reverseRecOn with
  | nil => rfl
  | append_singleton ls t ih =>
    rw [calls_concat, codeOf_append, ih, List.flatMap_append]
    rfl

/-- An offset is the length of the code in front. -/
theorem offset_eq_length (ls : List Text) (i : Nat) :
    offset ls i = ((ls.take i).flatMap Line.slots).length := by
  rw [offset]
  induction ls.take i with
  | nil => rfl
  | cons t ts ih => rw [List.foldr_cons, ih, List.flatMap_cons, List.length_append]

theorem offset_append_of_le {ls ls' : List Text} {i : Nat} (h : i ≤ ls.length) :
    offset (ls ++ ls') i = offset ls i := by
  rw [offset, offset, List.take_append_of_le_length h]

/-- The lines of a source text stand at their offsets. -/
theorem place_calls (ls : List Text) :
    place 0 (calls ls) = ls.mapIdx fun i t => ⟨i, offset ls i, t⟩ := by
  induction ls using List.reverseRecOn with
  | nil => rfl
  | append_singleton ls t ih =>
    rw [calls_concat, place_concat, ih, List.mapIdx_concat, Nat.zero_add, codeOf_calls]
    congr 1
    · refine List.mapIdx_eq_mapIdx_iff.mpr fun i hi => ?_
      rw [offset_append_of_le (Nat.le_of_lt hi)]
    · rw [offset_append_of_le (Nat.le_refl _), offset_eq_length, List.take_length]

theorem mem_place_of_getElem? {ls : List Text} {i : Nat} {t : Text} (ht : ls[i]? = some t) :
    (⟨i, offset ls i, t⟩ : Placed) ∈ place 0 (calls ls) := by
  obtain ⟨hi, rfl⟩ := List.getElem?_eq_some_iff.mp ht
  rw [place_calls]
  exact List.mem_mapIdx.mpr ⟨i, hi, rfl⟩

end Source

end Octasm
