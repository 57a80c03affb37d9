import Octasm.Program

/-!
# Recording spans

The spans of an assembly are a list in which the place of a line is its index. Recording a line
either overwrites its place or extends the list up to it; the places in between then hold empty
spans at the same start.

## Main definitions

* `Span.Cover`: spans that follow each other from one address to another

## Main results

* `Span.getElem?_record`: reading after recording
* `Span.record_of_length_le`: recording behind the last line
-/

namespace Octasm

namespace Span

variable {spans : List Span} {line i : Nat} {s : Span}

theorem length_record : (record spans line s).length = max spans.length (line + 1) := by
  rw [record, List.length_set, List.length_append, List.length_replicate]
  omega

/-- **Read after write.** -/
theorem getElem?_record :
    (record spans line s)[i]? = if i = line then some s
      else if i < spans.length then spans[i]?
      else if i < line then some ⟨s.start, s.start⟩ else none := by
  rw [record, List.getElem?_set, List.length_append, List.length_replicate]
  by_cases hi : i = line
  · rw [if_pos hi.symm, if_pos hi, if_pos (by omega)]
  · rw [if_neg (Ne.symm hi), if_neg hi]
    by_cases hlt : i < spans.length
    · rw [if_pos hlt, List.getElem?_append_left hlt]
    · rw [if_neg hlt, List.getElem?_append_right (Nat.le_of_not_lt hlt), List.getElem?_replicate]
      by_cases hline : i < line
      · rw [if_pos hline, if_pos (by omega)]
      · rw [if_neg hline, if_neg (by omega)]

/-- Recording behind the last line extends the list. -/
theorem record_of_length_le (h : spans.length ≤ line) :
    record spans line s
      = spans ++ List.replicate (line - spans.length) ⟨s.start, s.start⟩ ++ [s] := by
  have hlen : (spans ++ List.replicate (line - spans.length) (⟨s.start, s.start⟩ : Span)).length
      = line := by
    rw [List.length_append, List.length_replicate]
    omega
  rw [record, show line + 1 - spans.length = line - spans.length + 1 by omega,
    List.replicate_succ', ← List.append_assoc, List.set_append_right _ _ (Nat.le_of_eq hlen), hlen,
    Nat.sub_self]
  rfl

/-! ### Covering -/

/-- Each span starts where the one before it stops, the first at `start`, and the last stops at
`stop`. -/
def Cover (start stop : Nat) : List Span → Prop
  | [] => start = stop
  | s :: spans => s.start = start ∧ start ≤ s.stop ∧ Cover s.stop stop spans

theorem Cover.append {a b c : Nat} {xs ys : List Span} (hx : Cover a b xs) (hy : Cover b c ys) :
    Cover a c (xs ++ ys) := by
  induction xs generalizing a with
  | nil => exact (show a = b from hx) ▸ hy
  | cons s xs ih => exact ⟨hx.1, hx.2.1, ih hx.2.2⟩

theorem cover_replicate (a n : Nat) : Cover a a (List.replicate n ⟨a, a⟩) := by
  induction n with
  | zero => rfl
  | succ n ih => exact ⟨rfl, Nat.le_refl a, ih⟩

end Span

end Octasm
