import Octasm.Text.Ascii
import Mathlib.Data.List.Basic
import Mathlib.Data.List.Range
import Mathlib.Data.List.TakeWhile

/-!
# Patterns

A small language of regular expressions and what they match. At the front of a text a pattern may
match in several ways, and a matcher that goes back over its choices finds one that lets the rest of
the pattern match as well. Which one it finds is settled by preference: of two alternatives the left
one is tried first, a greedy repetition starts with as many characters as there are, a lazy one with
as few as it may. `Pattern.candidates` lists all matches in that order, so the match that is found
is the head of the list, `Pattern.first?`.

Only single characters are repeated, so no repetition goes round without reading anything.

## Going back

The lemmas below say when a matcher need not go back. In front of a part that always matches nothing
has to be tried again, so the first match of a sequence is made of first matches. And a greedy
repetition that is followed by something which cannot start with one of its characters has one
useful length, the longest; `Pattern.Commits` carries this through sequences and groups.

## Main definitions

* `Pattern`, `Pattern.candidates`: patterns and their matches in the order of preference
* `Pattern.first?`: the match that is found
* `Pattern.Total`: a pattern that matches at the front of every text
* `Pattern.Commits`: a pattern whose first match is the only one that a pattern behind it can use

## Main results

* `Pattern.taken_append_rest`: a match splits the text
* `Pattern.first?_alt`, `Pattern.first?_seq`: the first match of alternatives and of a sequence
* `Pattern.commits_many`, `Pattern.Commits.candidates_seq`: greedy repetition
* `Pattern.first?_lazy_seq_cons`, `Pattern.first?_lazy_one_seq_cons`: lazy repetition
-/

namespace Octasm

/-! ### Classes of characters -/

/-- A class of characters, as ranges with both ends included. -/
abbrev Ranges := List (Char × Char)

namespace Ranges

variable {s : Ranges} {c d : Char}

/-- Is the character in one of the ranges? -/
def has (s : Ranges) (c : Char) : Bool := s.any fun r => r.1 ≤ c && c ≤ r.2

theorem has_append (s t : Ranges) (c : Char) : has (s ++ t) c = (has s c || has t c) :=
  List.any_append

/-- A range from a character to itself. -/
theorem has_cons_self (c : Char) (s : Ranges) (d : Char) :
    has ((c, c) :: s) d = (d == c || has s d) := by
  have hrange : (decide (c ≤ d) && decide (d ≤ c)) = (d == c) := by
    rw [← Bool.decide_and, beq_eq_decide]
    exact decide_eq_decide.mpr
      ⟨fun h => Char.le_antisymm h.2 h.1, fun h => h ▸ ⟨Char.le_refl d, Char.le_refl d⟩⟩
  rw [has, List.any_cons, hrange, has]

theorem ne_of_has (hc : s.has c = true) (hd : s.has d = false) : c ≠ d := by
  rintro rfl
  cases hc.symm.trans hd

end Ranges

/-! ### Patterns and matches -/

/-- Patterns whose groups are named by `γ`. -/
inductive Pattern (γ : Type)
  /-- Nothing at all. -/
  | empty
  /-- One character of a class. -/
  | one (s : Ranges)
  /-- One pattern behind another. -/
  | seq (p q : Pattern γ)
  /-- The left pattern if possible, and else the right one. -/
  | alt (p q : Pattern γ)
  /-- From `least` to `most` characters of a class; as many as possible if `greedy`, and else as few
  as possible. -/
  | many (greedy : Bool) (least : Nat) (most : Option Nat) (s : Ranges)
  /-- A pattern whose text is kept under a name. -/
  | group (name : γ) (p : Pattern γ)

namespace Pattern

variable {γ : Type}

/-- A match: the text that is taken, the text that is left, and the texts of the groups. -/
structure Match (γ : Type) where
  taken : Text
  rest : Text
  groups : List (γ × Text)

/-- A match behind another. -/
def Match.append (m n : Match γ) : Match γ := ⟨m.taken ++ n.taken, n.rest, m.groups ++ n.groups⟩

/-- How many characters of a class a text starts with. -/
def count (s : Ranges) (t : Text) : Nat := (t.takeWhile s.has).length

/-- How many characters a repetition can take at most. -/
def reach (most : Option Nat) (s : Ranges) (t : Text) : Nat :=
  most.elim (count s t) (min (count s t))

/-- How many characters a repetition may take, fewest first. -/
def lengths (least : Nat) (most : Option Nat) (s : Ranges) (t : Text) : List Nat :=
  List.range' least (reach most s t + 1 - least)

/-- The match that takes so many characters. -/
def prefixMatch (t : Text) (n : Nat) : Match γ := ⟨t.take n, t.drop n, []⟩

/-- The matches of a pattern at the front of a text, in the order of preference. -/
def candidates : Pattern γ → Text → List (Match γ)
  | empty, t => [⟨[], t, []⟩]
  | one _, [] => []
  | one s, c :: t => if s.has c then [⟨[c], t, []⟩] else []
  | seq p q, t => (p.candidates t).flatMap fun m => (q.candidates m.rest).map m.append
  | alt p q, t => p.candidates t ++ q.candidates t
  | many greedy least most s, t =>
    (if greedy then (lengths least most s t).reverse else lengths least most s t).map
      (prefixMatch t)
  | group name p, t => (p.candidates t).map fun m => ⟨m.taken, m.rest, (name, m.taken) :: m.groups⟩

/-- The match that is found. -/
def first? (p : Pattern γ) (t : Text) : Option (Match γ) := (p.candidates t).head?

/-- The texts of the groups in the match that is found. -/
def captures? (p : Pattern γ) (t : Text) : Option (List (γ × Text)) :=
  (p.first? t).map Match.groups

/-- A pattern that need not be there. -/
def optional (p : Pattern γ) : Pattern γ := alt p empty

/-- One particular character. -/
def char (c : Char) : Pattern γ := one [(c, c)]

variable {p q : Pattern γ} {s : Ranges} {t u : Text} {c d : Char} {m n : Match γ} {name : γ}

/-- A match splits the text. -/
theorem taken_append_rest (h : m ∈ p.candidates t) : m.taken ++ m.rest = t := by
  induction p generalizing t m with
  | empty => rw [List.mem_singleton.mp h, List.nil_append]
  | one s =>
    cases t with
    | nil => cases h
    | cons c t =>
      rw [candidates] at h
      split at h
      · rw [List.mem_singleton.mp h, List.singleton_append]
      · cases h
  | seq p q hp hq =>
    obtain ⟨m₁, h₁, h⟩ := List.mem_flatMap.mp h
    obtain ⟨m₂, h₂, rfl⟩ := List.mem_map.mp h
    rw [Match.append, List.append_assoc, hq h₂, hp h₁]
  | alt p q hp hq => exact (List.mem_append.mp h).elim hp hq
  | many greedy least most s =>
    obtain ⟨n, -, rfl⟩ := List.mem_map.mp h
    exact List.take_append_drop n t
  | group name p hp =>
    obtain ⟨m, hm, rfl⟩ := List.mem_map.mp h
    have hsplit := hp hm
    exact hsplit

/-! ### First matches -/

theorem first?_alt (p q : Pattern γ) (t : Text) :
    (alt p q).first? t = (p.first? t).or (q.first? t) :=
  List.head?_append

theorem first?_optional (p : Pattern γ) (t : Text) :
    (optional p).first? t = (p.first? t).or (some ⟨[], t, []⟩) :=
  first?_alt p empty t

theorem first?_group (name : γ) (p : Pattern γ) (t : Text) :
    (group name p).first? t
      = (p.first? t).map fun m => ⟨m.taken, m.rest, (name, m.taken) :: m.groups⟩ :=
  List.head?_map

theorem captures?_optional (p : Pattern γ) (t : Text) :
    (optional p).captures? t = (p.captures? t).or (some []) := by
  rw [captures?, captures?, first?_optional]
  cases p.first? t <;> rfl

/-- A pattern that matches at the front of every text. -/
def Total (p : Pattern γ) : Prop := ∀ t, p.candidates t ≠ []

theorem total_optional (p : Pattern γ) : (optional p).Total :=
  fun _ h => List.cons_ne_nil _ _ (List.append_eq_nil_iff.mp h).2

theorem Total.seq (hp : p.Total) (hq : q.Total) : (seq p q).Total := by
  intro t h
  obtain ⟨m, ms, hm⟩ := List.exists_cons_of_ne_nil (hp t)
  rw [candidates, hm, List.flatMap_cons] at h
  exact hq m.rest (List.map_eq_nil_iff.mp (List.append_eq_nil_iff.mp h).1)

/-- In front of a pattern that always matches, the first match is the one. -/
theorem first?_seq (hq : q.Total) (p : Pattern γ) (t : Text) :
    (seq p q).first? t = (p.first? t).bind fun m => (q.first? m.rest).map m.append := by
  rw [first?, first?, candidates]
  cases p.candidates t with
  | nil => rfl
  | cons m ms =>
    obtain ⟨n, ns, hn⟩ := List.exists_cons_of_ne_nil (hq m.rest)
    rw [List.flatMap_cons, hn, List.head?_cons, Option.bind_some, first?, hn]
    rfl

theorem captures?_seq (hq : q.Total) (p : Pattern γ) (t : Text) :
    (seq p q).captures? t
      = (p.first? t).bind fun m => (q.captures? m.rest).map fun g => m.groups ++ g := by
  rw [captures?, first?_seq hq, Option.map_bind]
  refine congrArg _ (funext fun m => ?_)
  rw [Function.comp_apply, Option.map_map, captures?, Option.map_map]
  rfl

/-! ### One character -/

theorem has_char (c d : Char) : Ranges.has [(c, c)] d = (d == c) := by
  rw [Ranges.has_cons_self, Ranges.has, List.any_nil, Bool.or_false]

theorem candidates_char (c d : Char) (t : Text) :
    (char c : Pattern γ).candidates (d :: t) = if d = c then [⟨[d], t, []⟩] else [] := by
  simp only [char, candidates, has_char, beq_iff_eq]

theorem first?_char_cons (c d : Char) (t : Text) :
    (char c : Pattern γ).first? (d :: t) = if d = c then some ⟨[d], t, []⟩ else none := by
  rw [first?, candidates_char]
  split <;> rfl

/-- A character cannot stand where one of a class is that it does not belong to. -/
theorem candidates_char_of_has (hc : s.has c = true) (hd : s.has d = false) (t : Text) :
    (char d : Pattern γ).candidates (c :: t) = [] := by
  rw [candidates_char, if_neg (Ranges.ne_of_has hc hd)]

theorem candidates_one_seq (hc : s.has c = true) (q : Pattern γ) (t : Text) :
    (seq (one s) q).candidates (c :: t) = (q.candidates t).map (Match.append ⟨[c], t, []⟩) := by
  rw [candidates, candidates, if_pos hc, List.flatMap_singleton]

theorem candidates_one_seq_of_not (hc : s.has c = false) (q : Pattern γ) (t : Text) :
    (seq (one s) q).candidates (c :: t) = [] := by
  rw [candidates, candidates, hc]
  rfl

theorem first?_one_seq (hc : s.has c = true) (q : Pattern γ) (t : Text) :
    (seq (one s) q).first? (c :: t) = (q.first? t).map (Match.append ⟨[c], t, []⟩) := by
  rw [first?, candidates_one_seq hc, List.head?_map, first?]

theorem first?_one_seq_of_not (hc : s.has c = false) (q : Pattern γ) (t : Text) :
    (seq (one s) q).first? (c :: t) = none := by
  rw [first?, candidates_one_seq_of_not hc, List.head?_nil]

theorem first?_char_seq (c : Char) (q : Pattern γ) (t : Text) :
    (seq (char c) q).first? (c :: t) = (q.first? t).map (Match.append ⟨[c], t, []⟩) :=
  first?_one_seq (by rw [has_char, beq_self_eq_true]) q t

theorem first?_char_seq_of_ne (h : d ≠ c) (q : Pattern γ) (t : Text) :
    (seq (char c) q).first? (d :: t) = none :=
  first?_one_seq_of_not (by rw [has_char, beq_false_of_ne h]) q t

/-! ### Greedy repetition -/

theorem take_count (s : Ranges) (t : Text) : t.take (count s t) = t.takeWhile s.has :=
  (List.prefix_iff_eq_take.mp (List.takeWhile_prefix s.has)).symm

theorem drop_count (s : Ranges) (t : Text) : t.drop (count s t) = t.dropWhile s.has := by
  refine (List.append_right_inj (t.take (count s t))).mp ?_
  rw [List.take_append_drop, take_count, List.takeWhile_append_dropWhile]

theorem one_le_count_iff : 1 ≤ count s t ↔ t.head?.any s.has = true := by
  cases t with
  | nil => simp [count]
  | cons c t =>
    rw [count, List.takeWhile_cons, List.head?_cons, Option.any_some]
    cases s.has c <;> simp

/-- In front of the end of a run stands one of its characters. -/
theorem exists_drop_eq_cons {k : Nat} (h : k < count s t) :
    ∃ c u, t.drop k = c :: u ∧ s.has c = true := by
  induction t generalizing k with
  | nil => cases h
  | cons c t ih =>
    rw [count] at h
    cases hc : s.has c with
    | false =>
      rw [List.takeWhile_cons_of_neg (by simp [hc])] at h
      cases h
    | true =>
      rw [List.takeWhile_cons_of_pos hc, List.length_cons] at h
      cases k with
      | zero => exact ⟨c, t, rfl, hc⟩
      | succ k => exact ih (Nat.lt_of_succ_lt_succ h)

/-- A greedy repetition starts with as many characters as it can take. -/
theorem first?_many (least : Nat) (most : Option Nat) (s : Ranges) (t : Text) :
    (many true least most s : Pattern γ).first? t
      = if least ≤ reach most s t then some (prefixMatch t (reach most s t)) else none := by
  rw [first?, candidates, if_pos rfl, List.head?_map, List.head?_reverse, lengths,
    List.getLast?_range']
  by_cases h : least ≤ reach most s t
  · rw [if_neg (by omega), if_pos h, Option.map_some]
    congr 2
    omega
  · rw [if_pos (by omega), if_neg h]
    rfl

/-- A repetition that cannot take as many characters as it has to. -/
theorem candidates_many_of_lt {greedy : Bool} {least : Nat} {most : Option Nat}
    (h : reach most s t < least) : (many greedy least most s : Pattern γ).candidates t = [] := by
  have hnone : reach most s t + 1 - least = 0 := by omega
  rw [candidates, lengths, hnone]
  cases greedy <;> rfl

/-- The first match of a pattern is `m`, and what every other match leaves starts with a character
of the class. -/
def Commits (p : Pattern γ) (s : Ranges) (t : Text) (m : Match γ) : Prop :=
  ∃ others, p.candidates t = m :: others ∧
    ∀ n ∈ others, ∃ c u, n.rest = c :: u ∧ s.has c = true

theorem candidates_many_one_of_not {greedy : Bool} (h : t.head?.any s.has = false) :
    (many greedy 1 none s : Pattern γ).candidates t = [] := by
  refine candidates_many_of_lt (Nat.lt_of_not_le fun hcount => ?_)
  rw [reach, Option.elim_none, one_le_count_iff, h] at hcount
  cases hcount

/-- **Greedy repetition** leaves one of its characters unless it takes them all. -/
theorem commits_many {least : Nat} (h : least ≤ count s t) :
    (many true least none s : Pattern γ).Commits s t
      ⟨t.takeWhile s.has, t.dropWhile s.has, []⟩ := by
  have hlengths : lengths least none s t
      = List.range' least (count s t - least) ++ [count s t] := by
    have hlen : count s t + 1 - least = count s t - least + 1 := by omega
    rw [lengths, reach, Option.elim_none, hlen, List.range'_1_concat]
    congr 2
    omega
  refine ⟨(List.range' least (count s t - least)).reverse.map (prefixMatch t), ?_, ?_⟩
  · rw [candidates, if_pos rfl, hlengths, List.reverse_concat, List.map_cons, prefixMatch,
      take_count, drop_count]
  · intro n hn
    obtain ⟨k, hk, rfl⟩ := List.mem_map.mp hn
    have hlt := (List.mem_range'_1.mp (List.mem_reverse.mp hk)).2
    exact exists_drop_eq_cons (by omega)

namespace Commits

theorem first? (h : p.Commits s t m) : p.first? t = some m := by
  obtain ⟨others, hp, -⟩ := h
  rw [Pattern.first?, hp, List.head?_cons]

theorem one_seq {r : Ranges} (hc : r.has c = true) (h : p.Commits s t m) :
    (seq (one r) p).Commits s (c :: t) (Match.append ⟨[c], t, []⟩ m) := by
  obtain ⟨others, hp, hothers⟩ := h
  refine ⟨others.map (Match.append ⟨[c], t, []⟩), ?_, fun n hn => ?_⟩
  · rw [candidates_one_seq hc, hp, List.map_cons]
  · obtain ⟨k, hk, rfl⟩ := List.mem_map.mp hn
    exact hothers k hk

theorem group (h : p.Commits s t m) (name : γ) :
    (group name p).Commits s t ⟨m.taken, m.rest, (name, m.taken) :: m.groups⟩ := by
  obtain ⟨others, hp, hothers⟩ := h
  refine ⟨others.map fun m => ⟨m.taken, m.rest, (name, m.taken) :: m.groups⟩, ?_, fun n hn => ?_⟩
  · rw [candidates, hp, List.map_cons]
  · obtain ⟨k, hk, rfl⟩ := List.mem_map.mp hn
    exact hothers k hk

/-- **There is nothing to go back to** if the pattern behind cannot start with a character of the
class. -/
theorem candidates_seq (h : p.Commits s t m)
    (hq : ∀ c u, s.has c = true → q.candidates (c :: u) = []) :
    (seq p q).candidates t = (q.candidates m.rest).map m.append := by
  obtain ⟨others, hp, hothers⟩ := h
  have hnone : (others.flatMap fun n => (q.candidates n.rest).map n.append) = [] := by
    refine List.flatMap_eq_nil_iff.mpr fun n hn => ?_
    obtain ⟨c, u, hrest, hc⟩ := hothers n hn
    rw [hrest, hq c u hc, List.map_nil]
  rw [candidates, hp, List.flatMap_cons, hnone, List.append_nil]

theorem first?_seq (h : p.Commits s t m)
    (hq : ∀ c u, s.has c = true → q.candidates (c :: u) = []) :
    (seq p q).first? t = (q.first? m.rest).map m.append := by
  rw [Pattern.first?, h.candidates_seq hq, List.head?_map]
  rfl

theorem captures?_seq (h : p.Commits s t m)
    (hq : ∀ c u, s.has c = true → q.candidates (c :: u) = []) :
    (seq p q).captures? t = (q.captures? m.rest).map fun g => m.groups ++ g := by
  rw [captures?, h.first?_seq hq, Option.map_map, captures?, Option.map_map]
  rfl

/-- A pattern that need not be there, in front of a character of the class. -/
theorem optional (h : p.Commits s (c :: t) m) (hc : s.has c = true) :
    (optional p).Commits s (c :: t) m := by
  obtain ⟨others, hp, hothers⟩ := h
  refine ⟨others ++ [⟨[], c :: t, []⟩], ?_, fun n hn => ?_⟩
  · rw [Pattern.optional, candidates, hp, List.cons_append, candidates]
  · rcases List.mem_append.mp hn with hn | hn
    · exact hothers n hn
    · rw [List.mem_singleton.mp hn]
      exact ⟨c, t, rfl, hc⟩

theorem mono {r : Ranges} (h : p.Commits s t m) (hs : ∀ c, s.has c = true → r.has c = true) :
    p.Commits r t m := by
  obtain ⟨others, hp, hothers⟩ := h
  refine ⟨others, hp, fun n hn => ?_⟩
  obtain ⟨c, u, hrest, hc⟩ := hothers n hn
  exact ⟨c, u, hrest, hs c hc⟩

end Commits

/-- A sequence cannot start where its first part cannot. -/
theorem candidates_seq_of_eq_nil (h : p.candidates t = []) (q : Pattern γ) :
    (seq p q).candidates t = [] := by
  rw [candidates, h, List.flatMap_nil]

/-! ### Lazy repetition -/

theorem candidates_lazy_one_cons (s : Ranges) (c : Char) (t : Text) :
    (many false 1 none s : Pattern γ).candidates (c :: t)
      = if s.has c then
          ((many false 0 none s).candidates t).map (Match.append ⟨[c], t, []⟩)
        else [] := by
  cases hc : s.has c with
  | false =>
    have hcount : count s (c :: t) = 0 := by
      rw [count, List.takeWhile_cons_of_neg (by simp [hc]), List.length_nil]
    exact candidates_many_of_lt (by rw [reach, Option.elim_none, hcount]; exact Nat.zero_lt_one)
  | true =>
    have hcount : count s (c :: t) = count s t + 1 := by
      rw [count, List.takeWhile_cons_of_pos hc, List.length_cons, count]
    rw [if_pos rfl, candidates, candidates, if_neg Bool.false_ne_true, if_neg Bool.false_ne_true,
      lengths, lengths, reach, reach, Option.elim_none, Option.elim_none, hcount, Nat.sub_zero,
      Nat.add_sub_cancel, ← List.map_add_range' 0 (count s t + 1) 1, List.map_map, List.map_map]
    refine List.map_congr_left fun n _ => ?_
    simp only [Function.comp_apply, prefixMatch, Match.append, Nat.add_comm 1 n,
      List.take_succ_cons, List.drop_succ_cons, List.singleton_append, List.nil_append]

theorem candidates_lazy_cons (s : Ranges) (c : Char) (t : Text) :
    (many false 0 none s : Pattern γ).candidates (c :: t)
      = ⟨[], c :: t, []⟩ :: (many false 1 none s).candidates (c :: t) := by
  rw [candidates, candidates, if_neg Bool.false_ne_true, if_neg Bool.false_ne_true, lengths,
    lengths, Nat.sub_zero, Nat.add_sub_cancel, List.range'_succ, List.map_cons]
  rfl

/-- A lazy repetition starts with no character at all. -/
theorem candidates_lazy_seq (s : Ranges) (q : Pattern γ) (t : Text) :
    (seq (many false 0 none s) q).candidates t
      = q.candidates t ++ (seq (many false 1 none s) q).candidates t := by
  have hid : (Match.append ⟨[], t, []⟩ : Match γ → Match γ) = id := by
    funext n
    rfl
  cases t with
  | nil =>
    have hone : (many false 0 none s : Pattern γ).candidates [] = [⟨[], [], []⟩] := rfl
    have hnone : (many false 1 none s : Pattern γ).candidates [] = [] := rfl
    rw [candidates, candidates, hone, hnone, List.flatMap_singleton, hid, List.map_id,
      List.flatMap_nil, List.append_nil]
  | cons c t =>
    rw [candidates, candidates, candidates_lazy_cons, List.flatMap_cons, hid, List.map_id]

/-- A lazy repetition that has to take a character goes on behind it as one that need not. -/
theorem candidates_lazy_one_seq_cons (s : Ranges) (q : Pattern γ) (c : Char) (t : Text) :
    (seq (many false 1 none s) q).candidates (c :: t)
      = if s.has c then
          ((seq (many false 0 none s) q).candidates t).map (Match.append ⟨[c], t, []⟩)
        else [] := by
  rw [candidates, candidates_lazy_one_cons]
  cases s.has c with
  | false => rfl
  | true =>
    rw [if_pos rfl, if_pos rfl, candidates, List.map_flatMap, List.flatMap_map]
    simp only [List.map_map]
    rfl

/-- A lazy repetition takes nothing if the pattern behind it matches at once. -/
theorem first?_lazy_seq_cons (s : Ranges) (q : Pattern γ) (c : Char) (t : Text) :
    (seq (many false 0 none s) q).first? (c :: t)
      = (q.first? (c :: t)).or ((seq (many false 1 none s) q).first? (c :: t)) := by
  rw [first?, candidates_lazy_seq, List.head?_append]
  rfl

theorem first?_lazy_one_seq_cons (s : Ranges) (q : Pattern γ) (c : Char) (t : Text) :
    (seq (many false 1 none s) q).first? (c :: t)
      = if s.has c then
          ((seq (many false 0 none s) q).first? t).map (Match.append ⟨[c], t, []⟩)
        else none := by
  rw [first?, candidates_lazy_one_seq_cons]
  split
  · rw [List.head?_map]
    rfl
  · rfl

end Pattern

end Octasm
