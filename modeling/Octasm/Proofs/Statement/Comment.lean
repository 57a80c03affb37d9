import Mathlib.Data.List.DropRight
import Octasm.Proofs.Statement.Matching
import Octasm.Proofs.Text.Behind

/-!
# Comments

The grammar of a line does not know comments. A semicolon and what is behind it are left unread,
because no part of a line can reach across a semicolon: it is no letter, digit or separator, and
none of the other characters that a part is made of. The one place where it does not stop the reader
is between quotes. A quoted token that is still open at the semicolon would take the comment in if it
found its closing quote there, so a line and its comment must not both have quotes.

The pattern of a line makes this a statement about characters. Its classes leave the semicolon out,
except for the one between quotes, so the pattern ignores what is behind the line.

## Main definitions

* `Text.Unquoted`: a text without quotes

## Main results

* `Statement.ignores_comment`: the pattern of a line ignores a comment
* `Statement.isIgnorable_comment`: so does the rule for lines without a label and a mnemonic
* `Statement.ofText_comment`: a comment does not change what a line means
-/

namespace Octasm

/-! ### Quotes -/

/-- There are no quotes in the text, neither single nor double. -/
def Text.Unquoted (t : Text) : Prop := '\'' ∉ t ∧ '"' ∉ t

namespace Pattern

variable {γ : Type} {p : Pattern γ} {t c : Text} {m : Match γ}

/-- What a match leaves holds no quotes that were not there. -/
theorem unquoted_or_of_mem (hm : m ∈ p.candidates t) (h : t.Unquoted ∨ c.Unquoted) :
    m.rest.Unquoted ∨ c.Unquoted := by
  refine h.imp_left fun ht => ?_
  rw [← taken_append_rest hm] at ht
  exact ⟨fun hq => ht.1 (List.mem_append_right _ hq), fun hq => ht.2 (List.mem_append_right _ hq)⟩

end Pattern

open Pattern

/-! ### Operand tokens -/

namespace Token

variable {γ : Type} {quote : Char} {t c : Text}

theorem ignores_bracketPattern (t c : Text) :
    (bracketPattern : Pattern γ).Ignores t (';' :: c) := by
  refine (ignores_one (by decide) ..).seq fun _ _ => ?_
  refine (ignores_many (by decide) ..).seq fun _ _ => Ignores.seq ?_ fun _ _ => ?_
  · exact ((ignores_one (by decide) ..).seq fun _ _ => ignores_many (by decide) ..).optional
  · exact ignores_one (by decide) ..

/-- An opening quote is in the line, and a closing one that it does not find there is not in the
comment either. -/
theorem ignores_quotePattern (hquote : quote ≠ ';') (h : quote ∉ t ∨ quote ∉ c) :
    (quotePattern quote : Pattern γ).Ignores t (';' :: c) := by
  refine (ignores_one (by rw [has_char]; exact beq_false_of_ne hquote.symm) ..).seq fun m hm => ?_
  have hc : quote ∉ c := h.resolve_left fun ht => ht (mem_of_mem_candidates_char hm)
  exact ignores_quoted _ (List.not_mem_cons_of_ne_of_not_mem hquote hc) _

theorem ignores_barePattern (t c : Text) : (barePattern : Pattern γ).Ignores t (';' :: c) :=
  (ignores_one (by decide) ..).seq fun _ _ => ignores_many (by decide) ..

/-- **The pattern of an operand token** ignores a comment. -/
theorem ignores_comment (h : t.Unquoted ∨ c.Unquoted) :
    (pattern : Pattern γ).Ignores t (';' :: c) := by
  refine (ignores_bracketPattern t c).alt (Ignores.alt ?_ (Ignores.alt ?_ ?_))
  · exact ignores_quotePattern (by decide) (h.imp And.right And.right)
  · exact ignores_quotePattern (by decide) (h.imp And.left And.left)
  · exact ignores_barePattern t c

end Token

/-! ### Lines -/

namespace Statement

variable {t c : Text}

theorem ignores_blanksPattern (t c : Text) : blanksPattern.Ignores t (';' :: c) :=
  ignores_many (by decide) ..

theorem ignores_labelPattern (t c : Text) : labelPattern.Ignores t (';' :: c) := by
  refine Ignores.seq (Ignores.group ?_ _) fun _ _ => ignores_one (by decide) ..
  exact (ignores_one (by decide) ..).seq fun _ _ => ignores_many (by decide) ..

theorem ignores_secondPattern (h : t.Unquoted ∨ c.Unquoted) :
    secondPattern.Ignores t (';' :: c) := by
  refine (ignores_blanksPattern t c).seq fun m hm => (ignores_one (by decide) ..).seq fun n hn => ?_
  refine (ignores_blanksPattern _ c).seq fun k hk => (Token.ignores_comment ?_).group _
  exact unquoted_or_of_mem hk (unquoted_or_of_mem hn (unquoted_or_of_mem hm h))

theorem ignores_firstPattern (h : t.Unquoted ∨ c.Unquoted) :
    firstPattern.Ignores t (';' :: c) := by
  refine (ignores_many (by decide) ..).seq fun m hm => ?_
  have hrest := unquoted_or_of_mem hm h
  refine ((Token.ignores_comment hrest).group _).seq fun n hn => ?_
  exact (ignores_secondPattern (unquoted_or_of_mem hn hrest)).optional

theorem ignores_mnemonicPattern (h : t.Unquoted ∨ c.Unquoted) :
    mnemonicPattern.Ignores t (';' :: c) := by
  refine (ignores_blanksPattern t c).seq fun m hm => ?_
  have hrest := unquoted_or_of_mem hm h
  refine ((ignores_many (by decide) ..).group _).seq fun n hn => ?_
  exact (ignores_firstPattern (unquoted_or_of_mem hn hrest)).optional

/-- **The pattern of a line** ignores a comment, wherever in the pattern the line ends. -/
theorem ignores_comment (h : t.Unquoted ∨ c.Unquoted) : pattern.Ignores t (';' :: c) := by
  refine (ignores_blanksPattern t c).seq fun m hm => ?_
  have hrest := unquoted_or_of_mem hm h
  refine (ignores_labelPattern _ c).optional.seq fun n hn => ?_
  exact (ignores_mnemonicPattern (unquoted_or_of_mem hn hrest)).optional

theorem scan_comment (h : t.Unquoted ∨ c.Unquoted) : scan (t ++ ';' :: c) = scan t := by
  have hgroups := (ignores_comment h).captures?
  rw [captures?_pattern, captures?_pattern, Option.some.injEq] at hgroups
  rw [← ofGroups_groups (scan t), ← hgroups, ofGroups_groups]

/-- A line without a label and a mnemonic is judged by its first character that is no blank. -/
theorem isIgnorable_eq (t : Text) :
    isIgnorable t = (t.find? fun c => !Text.isBlank c).all (· == ';') := by
  have htrim : t.trim.head? = t.trimStart.head? := by
    cases ht : t.trimStart with
    | nil => rw [Text.trim, ht]; rfl
    | cons c u =>
      have hc : Text.isBlank c = false := by
        have hhead := List.head?_dropWhile_not Text.isBlank t
        rwa [show t.dropWhile Text.isBlank = c :: u from ht] at hhead
      obtain ⟨v, hv⟩ : Text.trimEnd (c :: u) <+: c :: u := List.rdropWhile_prefix ..
      rw [Text.trim, ht]
      cases hend : Text.trimEnd (c :: u) with
      | nil =>
        have hall := List.rdropWhile_eq_nil_iff.mp hend c (List.mem_cons_self ..)
        cases hc.symm.trans hall
      | cons d w =>
        rw [hend] at hv
        rw [List.head?_cons, List.head?_cons, (List.cons.inj hv).1]
  rw [List.find?_not_eq_head?_dropWhile, show t.dropWhile Text.isBlank = t.trimStart from rfl,
    ← htrim, isIgnorable]
  cases t.trim <;> rfl

theorem isIgnorable_comment (t c : Text) : isIgnorable (t ++ ';' :: c) = isIgnorable t := by
  have hfirst : (';' :: c).find? (fun c => !Text.isBlank c) = some ';' := rfl
  rw [isIgnorable_eq, isIgnorable_eq, List.find?_append, hfirst]
  cases t.find? fun c => !Text.isBlank c <;> rfl

/-- **A comment does not change what a line means.** Unless there are quotes both in the line and in
the comment, the statement is that of the line alone, or both are refused. The line may end
anywhere, also inside brackets, behind a comma or between quotes. -/
theorem ofText_comment (h : t.Unquoted ∨ c.Unquoted) : ofText (t ++ ';' :: c) = ofText t := by
  rw [ofText, ofText, scan_comment h, isIgnorable_comment]

/-- A string that is not closed is not closed by a comment. -/
theorem ofText_comment_open :
    (Text.Unquoted "DB \"stop".toList ∨ Text.Unquoted " it is open".toList) ∧
      ofText ("DB \"stop".toList ++ ';' :: " it is open".toList) = ofText "DB \"stop".toList := by
  have h : Text.Unquoted "DB \"stop".toList ∨ Text.Unquoted " it is open".toList :=
    Or.inr ⟨by decide, by decide⟩
  exact ⟨h, ofText_comment h⟩

example : ofText ("DB \"stop".toList ++ ';' :: " or \"not".toList) ≠ ofText "DB \"stop".toList := by
  decide

end Statement

end Octasm
