import Octasm.Text.Ascii

/-!
# Lines

A text of `n` line feeds has `n + 1` lines, the last of which may be empty. A carriage return is
an ordinary character and stays at the end of its line.
-/

namespace Octasm

namespace Text

/-- The pieces between line feeds. -/
def lines (t : Text) : List Text := t.splitOn '\n'

/-- There is always a first line. -/
theorem lines_ne_nil (t : Text) : lines t ≠ [] := List.splitOn_ne_nil _ _

/-- A line feed between two texts keeps their lines apart. -/
theorem lines_append_newline (s t : Text) : lines (s ++ '\n' :: t) = lines s ++ lines t :=
  List.splitOn_append_cons_self s t

/-- A text without line feeds is its own only line. -/
theorem lines_of_not_mem {t : Text} (h : '\n' ∉ t) : lines t = [t] :=
  List.splitOn_eq_singleton h

/-- Rows for a terminal or a file, each ended by a line feed. -/
def unlines (rows : List Text) : Text := rows.flatMap fun row => row ++ ['\n']

theorem unlines_cons (row : Text) (rows : List Text) :
    unlines (row :: rows) = row ++ '\n' :: unlines rows := by
  rw [unlines, List.flatMap_cons, List.append_assoc]
  rfl

/-- Rows without line feeds are the lines, and nothing stands behind the last line feed. -/
theorem lines_unlines {rows : List Text} (h : ∀ row ∈ rows, '\n' ∉ row) :
    lines (unlines rows) = rows ++ [[]] := by
  induction rows with
  | nil => rfl
  | cons row rows ih =>
    rw [unlines_cons, lines_append_newline, lines_of_not_mem (h row (List.mem_cons_self ..)),
      ih fun r hr => h r (List.mem_cons_of_mem row hr)]
    rfl

end Text

end Octasm
