import Octasm.Text.Ascii

/-!
# Assembled programs

A program is the memory image from address zero on, together with what a debugger and a listing
need: which line each instruction came from, the labels, and the stretch of the image that each
line filled.

## Main definitions

* `SourceMap`: instruction addresses with their lines, in ascending order
* `Span`: a stretch of the image
* `Program`: image, source map, labels and spans
-/

namespace Octasm

/-! ### Source maps -/

/-- Instruction addresses with the index of the line each came from, by ascending address. -/
structure SourceMap where
  entries : List (Nat × Nat)
  deriving DecidableEq, Repr

namespace SourceMap

/-- The map without addresses. -/
def empty : SourceMap := ⟨[]⟩

/-- Put an address in its place among ascending ones. An address that is there already gets the
new line. -/
def place (address line : Nat) : List (Nat × Nat) → List (Nat × Nat)
  | [] => [(address, line)]
  | (a, l) :: rest =>
    if address < a then (address, line) :: (a, l) :: rest
    else if address = a then (address, line) :: rest
    else (a, l) :: place address line rest

/-- Record the line of an address. -/
def insert (m : SourceMap) (address line : Nat) : SourceMap := ⟨place address line m.entries⟩

/-- The line of an address. -/
def line? (m : SourceMap) (address : Nat) : Option Nat := m.entries.lookup address

/-- Above all recorded addresses, recording is appending. -/
theorem place_eq_append {address line : Nat} {entries : List (Nat × Nat)}
    (h : ∀ entry ∈ entries, entry.1 < address) :
    place address line entries = entries ++ [(address, line)] := by
  induction entries with
  | nil => rfl
  | cons entry rest ih =>
    have ha : entry.1 < address := h entry (List.mem_cons_self ..)
    simp [place, Nat.not_lt.mpr (Nat.le_of_lt ha), Nat.ne_of_gt ha,
      ih fun e he => h e (List.mem_cons_of_mem _ he)]

end SourceMap

/-! ### Spans -/

/-- The addresses from `start` up to but without `stop`. -/
structure Span where
  start : Nat
  stop : Nat
  deriving DecidableEq, Repr

namespace Span

/-- Does the span hold no address? -/
def isEmpty (s : Span) : Bool := s.stop ≤ s.start

/-- The bytes of the image in a span. A span that is not in the image has none. -/
def bytes (s : Span) (image : List UInt8) : List UInt8 :=
  if s.start ≤ s.stop ∧ s.stop ≤ image.length then (image.drop s.start).take (s.stop - s.start)
  else []

theorem bytes_of_le {s : Span} {image : List UInt8} (hstart : s.start ≤ s.stop)
    (hstop : s.stop ≤ image.length) :
    s.bytes image = (image.drop s.start).take (s.stop - s.start) :=
  if_pos ⟨hstart, hstop⟩

/-- Set the span of a line. Lines before it that have none yet get an empty span at the same
start. -/
def record (spans : List Span) (line : Nat) (s : Span) : List Span :=
  (spans ++ List.replicate (line + 1 - spans.length) (Span.mk s.start s.start)).set line s

/-- The line after the last one is recorded at the end. -/
theorem record_length (spans : List Span) (s : Span) :
    record spans spans.length s = spans ++ [s] := by
  simp [record]

end Span

/-! ### Programs -/

/-- An assembled program. -/
structure Program where
  /-- The memory image. -/
  code : List UInt8
  /-- The lines of the instructions; data has no entry. -/
  sourceMap : SourceMap
  /-- The labels as written, in the order of their declaration. -/
  labels : List (Text × Nat)
  /-- The stretch of the image that each line filled. -/
  spans : List Span
  deriving DecidableEq, Repr

end Octasm
