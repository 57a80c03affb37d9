import Mathlib.Data.List.Forall2

/-!
# Computations that can fail

Reading, encoding and linking all end in an `Except`. These are the inversion lemmas through which
the rest of the theory looks at them: a sequence of two computations succeeds if both do, and a
traversal either succeeds at every element or fails at the first element that fails.

## Main definitions

* `Fallible.Related`: two computations fail alike or succeed alike

## Main results

* `Fallible.bind_eq_ok_iff`, `Fallible.bind_eq_error_iff`: sequencing
* `Fallible.mapM_eq_ok_iff`, `Fallible.mapM_eq_error_iff`: traversal of a list
* `Fallible.mapM_append_eq_error_iff`: traversal of two lists
* `Fallible.Related.bind`, `Fallible.Related.mapM`: two computations in step
-/

namespace Octasm

namespace Fallible

variable {ε α β : Type}

/-! ### Sequencing -/

theorem bind_eq_ok_iff {x : Except ε α} {f : α → Except ε β} {b : β} :
    (x >>= f) = .ok b ↔ ∃ a, x = .ok a ∧ f a = .ok b := by
  cases x <;> simp [bind, Except.bind]

theorem bind_eq_error_iff {x : Except ε α} {f : α → Except ε β} {e : ε} :
    (x >>= f) = .error e ↔ x = .error e ∨ ∃ a, x = .ok a ∧ f a = .error e := by
  cases x <;> simp [bind, Except.bind]

/-! ### Traversal -/

/-- A traversal that succeeds has succeeded at every element. -/
theorem mapM_eq_ok_iff {f : α → Except ε β} {xs : List α} {ys : List β} :
    xs.mapM f = .ok ys ↔ List.Forall₂ (fun x y => f x = .ok y) xs ys := by
  induction xs generalizing ys with
  | nil =>
    rw [List.mapM_nil, List.forall₂_nil_left_iff]
    exact ⟨fun h => (Except.ok.inj h).symm, fun h => congrArg _ h.symm⟩
  | cons x xs ih =>
    rw [List.mapM_cons, bind_eq_ok_iff, List.forall₂_cons_left_iff]
    refine exists_congr fun y => ?_
    rw [bind_eq_ok_iff]
    constructor
    · rintro ⟨hx, ys', hys, h⟩
      exact ⟨ys', hx, ih.mp hys, (Except.ok.inj h).symm⟩
    · rintro ⟨ys', hx, hys, rfl⟩
      exact ⟨hx, ys', ih.mpr hys, rfl⟩

/-- What a traversal that succeeds does to one element. -/
theorem exists_ok_of_mem {f : α → Except ε β} {xs : List α} {ys : List β} {x : α}
    (h : List.Forall₂ (fun x y => f x = .ok y) xs ys) (hx : x ∈ xs) : ∃ y, f x = .ok y := by
  induction h with
  | nil => cases hx
  | cons hy _ ih =>
    rcases List.mem_cons.mp hx with rfl | hx
    · exact ⟨_, hy⟩
    · exact ih hx

/-- A traversal that fails has failed at the first element that can fail. -/
theorem mapM_eq_error_iff {f : α → Except ε β} {xs : List α} {e : ε} :
    xs.mapM f = .error e ↔
      ∃ before x after, xs = before ++ x :: after ∧ f x = .error e ∧
        ∀ y ∈ before, ∃ b, f y = .ok b := by
  induction xs with
  | nil => simp [pure, Except.pure]
  | cons x xs ih =>
    rw [List.mapM_cons, bind_eq_error_iff]
    constructor
    · rintro (hx | ⟨b, hx, h⟩)
      · exact ⟨[], x, xs, rfl, hx, by simp⟩
      · rcases bind_eq_error_iff.mp h with h | ⟨_, _, h⟩
        · obtain ⟨before, y, after, rfl, hy, hbefore⟩ := ih.mp h
          refine ⟨x :: before, y, after, rfl, hy, fun z hz => ?_⟩
          rcases List.mem_cons.mp hz with rfl | hz
          · exact ⟨b, hx⟩
          · exact hbefore z hz
        · cases h
    · rintro ⟨before, y, after, hxs, hy, hbefore⟩
      cases before with
      | nil =>
        obtain ⟨rfl, rfl⟩ := List.cons.inj hxs
        exact Or.inl hy
      | cons z before =>
        obtain ⟨rfl, rfl⟩ := List.cons.inj hxs
        obtain ⟨b, hb⟩ := hbefore x (List.mem_cons_self ..)
        refine Or.inr ⟨b, hb, bind_eq_error_iff.mpr (Or.inl (ih.mpr ?_))⟩
        exact ⟨before, y, after, rfl, hy, fun w hw => hbefore w (List.mem_cons_of_mem _ hw)⟩

/-- Behind elements at which it succeeds, a traversal fails where it fails by itself. -/
theorem mapM_append_eq_error_iff {f : α → Except ε β} {xs ys : List α} {e : ε}
    (hxs : ∀ x ∈ xs, ∃ b, f x = .ok b) :
    (xs ++ ys).mapM f = .error e ↔ ys.mapM f = .error e := by
  induction xs with
  | nil => rfl
  | cons x xs ih =>
    obtain ⟨b, hb⟩ := hxs x (List.mem_cons_self ..)
    have hrest := ih fun z hz => hxs z (List.mem_cons_of_mem x hz)
    rw [List.cons_append, List.mapM_cons, hb, ← hrest, bind_eq_error_iff]
    simp [bind_eq_error_iff, pure, Except.pure]

/-! ### Two computations side by side -/

section Related

variable {δ γ κ : Type} {R : ε → δ → Prop} {S : α → β → Prop} {T : γ → κ → Prop}

/-- Two computations both fail, with related faults, or both succeed, with related results. -/
inductive Related (R : ε → δ → Prop) (S : α → β → Prop) : Except ε α → Except δ β → Prop
  | ok {a : α} {b : β} (h : S a b) : Related R S (.ok a) (.ok b)
  | error {e : ε} {f : δ} (h : R e f) : Related R S (.error e) (.error f)

variable {x : Except ε α} {y : Except δ β}

theorem Related.exists_ok {a : α} (h : Related R S x y) (hx : x = .ok a) :
    ∃ b, y = .ok b ∧ S a b := by
  subst hx
  cases h with
  | ok h => exact ⟨_, rfl, h⟩

theorem Related.exists_error {e : ε} (h : Related R S x y) (hx : x = .error e) :
    ∃ f, y = .error f ∧ R e f := by
  subst hx
  cases h with
  | error h => exact ⟨_, rfl, h⟩

theorem Related.bind {f : α → Except ε γ} {g : β → Except δ κ} (h : Related R S x y)
    (hfg : ∀ a b, S a b → Related R T (f a) (g b)) : Related R T (x >>= f) (y >>= g) := by
  cases h with
  | ok h => exact hfg _ _ h
  | error h => exact .error h

/-- Traversals of related lists are related. -/
theorem Related.mapM {f : α → Except ε γ} {g : β → Except δ κ} {xs : List α} {ys : List β}
    (hfg : ∀ a b, S a b → Related R T (f a) (g b)) (h : List.Forall₂ S xs ys) :
    Related R (List.Forall₂ T) (xs.mapM f) (ys.mapM g) := by
  induction h with
  | nil => exact .ok .nil
  | cons hxy _ ih =>
    rw [List.mapM_cons, List.mapM_cons]
    exact (hfg _ _ hxy).bind fun _ _ hab => ih.bind fun _ _ htail => .ok (.cons hab htail)

theorem Related.refl {R : ε → ε → Prop} {S : α → α → Prop} (hR : ∀ e, R e e) (hS : ∀ a, S a a)
    (x : Except ε α) : Related R S x x := by
  cases x with
  | ok a => exact .ok (hS a)
  | error e => exact .error (hR e)

end Related

end Fallible

end Octasm
