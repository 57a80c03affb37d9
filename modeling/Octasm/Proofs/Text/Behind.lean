import Octasm.Proofs.Text.Pattern

/-!
# Text that patterns do not look at

A pattern that matches at the front of a text may match otherwise once there is more text behind it:
a repetition can take more characters, or a part that could not match before now can. Neither
happens if the new text starts with a character that no class of the pattern has, since no match can
reach across that character. All matches are then the ones from before, in the same order, and what
each of them leaves goes on with the new text.

This is shown for one constructor after the other, so it holds of any pattern whose classes leave
the character out. A class that has the character, as the dot in `".+?"` has every character but a
line feed, needs an argument of its own: such a repetition may run on into the new text, but the
quote behind it has to be found there, and it is not.

## Main definitions

* `Pattern.Ignores`: a text behind another makes no difference to the matches of a pattern

## Main results

* `Pattern.Ignores.seq`, `Pattern.ignores_many`: sequences and repetitions
* `Pattern.ignores_quoted`: any characters up to one that the new text does not hold
-/

namespace Octasm

namespace Pattern

variable {γ : Type} {p q : Pattern γ} {s : Ranges} {t tail u : Text} {c d : Char}

/-- A match in a text with more text behind. -/
def Match.before (m : Match γ) (tail : Text) : Match γ := ⟨m.taken, m.rest ++ tail, m.groups⟩

/-- A pattern ignores what is behind a text: its matches are those in the text alone. -/
def Ignores (p : Pattern γ) (t tail : Text) : Prop :=
  p.candidates (t ++ tail) = (p.candidates t).map fun m => m.before tail

/-- The groups are the same. -/
theorem Ignores.captures? (h : p.Ignores t tail) : p.captures? (t ++ tail) = p.captures? t := by
  rw [Pattern.captures?, Pattern.captures?, first?, first?, h, List.head?_map, Option.map_map]
  rfl

/-! ### Constructors -/

theorem ignores_empty (t tail : Text) : (empty : Pattern γ).Ignores t tail := rfl

theorem ignores_one (hc : s.has c = false) (t u : Text) :
    (one s : Pattern γ).Ignores t (c :: u) := by
  cases t with
  | nil => simp only [Ignores, List.nil_append, candidates, hc, List.map_nil]; rfl
  | cons d t =>
    rw [Ignores, List.cons_append, candidates, candidates]
    split <;> rfl

/-- The second pattern may look at what a match of the first one leaves. -/
theorem Ignores.seq (hp : p.Ignores t tail)
    (hq : ∀ m ∈ p.candidates t, q.Ignores m.rest tail) : (seq p q).Ignores t tail := by
  rw [Ignores, candidates, candidates, hp, List.flatMap_map, List.map_flatMap]
  refine List.flatMap_congr fun m hm => ?_
  have hrest : q.candidates (m.before tail).rest = _ := hq m hm
  rw [hrest, List.map_map, List.map_map]
  rfl

theorem Ignores.alt (hp : p.Ignores t tail) (hq : q.Ignores t tail) : (alt p q).Ignores t tail := by
  rw [Ignores, candidates, candidates, hp, hq, List.map_append]

theorem Ignores.optional (hp : p.Ignores t tail) : (optional p).Ignores t tail :=
  hp.alt (ignores_empty t tail)

theorem Ignores.group (hp : p.Ignores t tail) (name : γ) : (group name p).Ignores t tail := by
  rw [Ignores, candidates, candidates, hp, List.map_map, List.map_map]
  rfl

/-- **A repetition** ends where it ended, at the character that its class leaves out. -/
theorem ignores_many (hc : s.has c = false) (greedy : Bool) (least : Nat) (most : Option Nat)
    (t u : Text) : (many greedy least most s : Pattern γ).Ignores t (c :: u) := by
  have hcount : count s (t ++ c :: u) = count s t := by
    rw [count, count, List.takeWhile_append]
    split
    · rename_i hall
      rw [List.takeWhile_cons_of_neg (by simp [hc]), List.append_nil, hall]
    · rfl
  have hlengths : lengths least most s (t ++ c :: u) = lengths least most s t := by
    rw [lengths, lengths, reach, reach, hcount]
  have hprefix : ∀ n ∈ lengths least most s t,
      (prefixMatch (t ++ c :: u) n : Match γ) = (prefixMatch t n).before (c :: u) := by
    intro n hn
    have hreach : reach most s t ≤ t.length := by
      have hle : count s t ≤ t.length := (List.takeWhile_prefix s.has).length_le
      cases most with
      | none => exact hle
      | some k => exact Nat.le_trans (Nat.min_le_left _ _) hle
    obtain ⟨hleast, hn⟩ := List.mem_range'_1.mp hn
    rw [prefixMatch, List.take_append_of_le_length (by omega),
      List.drop_append_of_le_length (by omega)]
    rfl
  rw [Ignores, candidates, candidates, hlengths, List.map_map]
  refine List.map_congr_left fun n hn => hprefix n ?_
  cases greedy with
  | true => exact List.mem_reverse.mp hn
  | false => exact hn

/-! ### Any characters up to a quote -/

/-- A pattern for one character matches only where the character is. -/
theorem mem_of_mem_candidates_char {m : Match γ} (hm : m ∈ (char d).candidates t) : d ∈ t := by
  cases t with
  | nil => cases hm
  | cons c t =>
    rw [candidates_char] at hm
    split at hm
    · rename_i hc
      exact hc ▸ List.mem_cons_self ..
    · cases hm

theorem candidates_seq_char_of_notMem (h : d ∉ t) (p : Pattern γ) :
    (seq p (char d)).candidates t = [] := by
  refine List.flatMap_eq_nil_iff.mpr fun m hm => List.map_eq_nil_iff.mpr ?_
  refine List.eq_nil_iff_forall_not_mem.mpr fun n hn => h ?_
  rw [← taken_append_rest hm]
  exact List.mem_append_right _ (mem_of_mem_candidates_char hn)

/-- **Any characters up to a quote.** They may run on into the text behind, and then no quote
follows. -/
theorem ignores_quoted (s : Ranges) (hd : d ∉ c :: u) (t : Text) :
    (seq (many false 1 none s) (char d) : Pattern γ).Ignores t (c :: u) := by
  have hchar : ∀ v, (char d : Pattern γ).Ignores v (c :: u) := fun v =>
    ignores_one (by rw [has_char]; exact beq_false_of_ne (List.ne_of_not_mem_cons hd).symm) v u
  induction t with
  | nil =>
    rw [Ignores, List.nil_append, candidates_seq_char_of_notMem hd,
      candidates_seq_char_of_notMem List.not_mem_nil, List.map_nil]
  | cons b t ih =>
    rw [Ignores, List.cons_append, candidates_lazy_one_seq_cons, candidates_lazy_one_seq_cons]
    split
    · rw [candidates_lazy_seq, candidates_lazy_seq, hchar t, ih, ← List.map_append, List.map_map,
        List.map_map]
      rfl
    · rfl

end Pattern

end Octasm
