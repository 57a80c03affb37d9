import Octasm.Assembly
import Octasm.Proofs.Statement.Trailing

/-!
# Line endings

A source text may end its lines with a line feed or with a carriage return and a line feed. The
carriage returns stay at the ends of the lines, where they are blanks behind a statement, and of a
line nothing but its statement is looked at.

## Main definitions

* `Text.crlf`: a text with a carriage return in front of every line feed

## Main results

* `Text.trails_lines_crlf`: its lines have blanks behind them
* `assemble_congr`: texts with the same statements are assembled alike
* `assemble_crlf`: line endings do not matter
-/

namespace Octasm

/-! ### Carriage returns -/

namespace Text

/-- The text with a carriage return in front of every line feed. -/
def crlf (t : Text) : Text := t.flatMap fun c => if c = '\n' then ['\r', '\n'] else [c]

/-- All lines but the last have a carriage return behind them. -/
theorem trails_lines_crlf (t : Text) : List.Forall₂ Trails t.lines t.crlf.lines := by
  induction t with
  | nil => exact .cons (.blank (by simp)) .nil
  | cons c t ih =>
    by_cases hc : c = '\n'
    · subst hc
      have hlines : lines ('\n' :: t) = [] :: lines t := lines_append_newline [] t
      have hcrlf : lines (crlf ('\n' :: t)) = ['\r'] :: lines (crlf t) :=
        lines_append_newline ['\r'] (crlf t)
      rw [hlines, hcrlf]
      refine .cons (.blank fun c hc => ?_) ih
      rw [List.mem_singleton.mp hc]
      decide
    · have hmore : ∀ u, lines (c :: u) = (lines u).modifyHead (c :: ·) := fun u => by
        rw [lines, List.splitOn_cons_eq_if_modifyHead, if_neg (by simpa using hc), lines]
      have hcrlf : crlf (c :: t) = c :: crlf t := by
        rw [crlf, List.flatMap_cons, if_neg hc]
        rfl
      rw [hcrlf, hmore, hmore]
      -- the character goes to the front of the first line of both
      generalize lines t = xs at ih
      generalize lines (crlf t) = ys at ih
      cases ih with
      | nil => exact .nil
      | cons hfirst hrest => exact .cons (.cons c hfirst) hrest

end Text

/-! ### Texts with the same statements -/

namespace Assembly

/-- Of a line nothing but its statement is looked at. -/
theorem addLine_congr {t u : Text} (h : Statement.ofText u = Statement.ofText t) (a : Assembly)
    (line : Nat) : a.addLine line u = a.addLine line t := by
  simp only [addLine, h]

theorem addLines_congr {ts us : List Text}
    (h : List.Forall₂ (fun t u => Statement.ofText u = Statement.ofText t) ts us) (a : Assembly)
    (index : Nat) : a.addLines index us = a.addLines index ts := by
  induction h generalizing a index with
  | nil => rfl
  | cons htu _ ih =>
    rw [addLines, addLines, addLine_congr htu]
    split
    · exact ih _ _
    · rfl

end Assembly

/-- Texts whose lines hold the same statements one by one are assembled alike. -/
theorem assemble_congr {s s' : Text}
    (h : List.Forall₂ (fun t u => Statement.ofText u = Statement.ofText t) s.lines s'.lines) :
    assemble s' = assemble s := by
  rw [assemble, assemble, Assembly.addLines_congr h]

/-- **Line endings do not matter.** With a carriage return in front of every line feed, a text is
assembled to the same program, or refused in the same line and for the same cause. -/
theorem assemble_crlf (source : Text) : assemble source.crlf = assemble source :=
  assemble_congr ((Text.trails_lines_crlf source).imp fun _ _ h => Statement.ofText_trails h)

end Octasm
