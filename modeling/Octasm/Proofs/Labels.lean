import Octasm.Labels
import Mathlib.Data.List.Induction
import Mathlib.Data.List.Pairwise

/-!
# Names in a label table

`Labels.address?` takes the first entry with a name. In a table whose names are distinct up to case
there is no second one, so the address of a name is that of the one entry that has it.

## Main definitions

* `Labels.Distinct`: no two entries have spellings of one name

## Main results

* `Labels.declare_eq_ok_iff`, `Labels.declare_eq_error_iff`: declaring a name
* `Labels.address?_eq_none_iff`, `Labels.address?_eq_some_iff`: looking a name up
* `Labels.Distinct.concat`: an entry with a new name keeps the names distinct
* `Labels.Distinct.toMap_eq_entries`: the table as a map
* `Labels.address?_append`, `Labels.address?_moved`: tables behind each other, and moved up
-/

namespace Octasm

namespace Labels

variable {ls ls' : Labels} {name : Text} {k : Nat} {f : Fault}

/-! ### Declaring a name -/

/-- A name that is declared is new and not that of a register, and it goes to the end. -/
theorem declare_eq_ok_iff :
    ls.declare name k = .ok ls' ↔
      (ls.address? name = none ∧ Register.ofText? name = none) ∧
        ls' = ⟨ls.entries ++ [(name, k)]⟩ := by
  rw [declare]
  cases hd : ls.address? name with
  | some _ => simp
  | none =>
    cases hr : Register.ofText? name with
    | some _ => simp
    | none => simp [eq_comm]

/-- A name is refused if it is declared already, and else if it is that of a register. -/
theorem declare_eq_error_iff :
    ls.declare name k = .error f ↔
      (ls.address? name ≠ none ∧ f = .duplicateLabel name) ∨
        (ls.address? name = none ∧ Register.ofText? name ≠ none ∧
          f = .reservedLabel name.upper) := by
  rw [declare]
  cases hd : ls.address? name with
  | some _ => simp [eq_comm]
  | none =>
    cases hr : Register.ofText? name with
    | some _ => simp [eq_comm]
    | none => simp

/-! ### Distinct names -/

/-- No two entries have spellings of one name. -/
def Distinct (ls : Labels) : Prop := ls.entries.Pairwise fun x y => ¬ Text.SameName x.1 y.1

theorem distinct_iff : ls.Distinct ↔ (ls.entries.map fun x => x.1.upper).Nodup := by
  rw [Distinct, List.Nodup, List.pairwise_map]
  rfl

theorem distinct_empty : empty.Distinct := List.Pairwise.nil

theorem address?_eq_none_iff :
    ls.address? name = none ↔ ∀ x ∈ ls.entries, ¬ Text.SameName x.1 name := by
  rw [address?, Option.map_eq_none_iff, List.find?_eq_none]
  simp only [beq_iff_eq, Text.SameName]

/-- In a table with distinct names it does not matter that the first entry wins. -/
theorem address?_eq_some_iff (h : ls.Distinct) :
    ls.address? name = some k ↔ ∃ x ∈ ls.entries, Text.SameName x.1 name ∧ x.2 = k := by
  have found : ∀ {x}, ls.entries.find? (fun entry => entry.1.upper == name.upper) = some x →
      Text.SameName x.1 name := by
    intro x hx
    simpa only [Text.SameName, beq_iff_eq] using List.find?_some hx
  constructor
  · intro hk
    obtain ⟨x, hx, rfl⟩ := Option.map_eq_some_iff.mp hk
    exact ⟨x, List.mem_of_find?_eq_some hx, found hx, rfl⟩
  · rintro ⟨x, hx, hname, rfl⟩
    cases hy : ls.entries.find? fun entry => entry.1.upper == name.upper with
    | none => exact absurd hname (address?_eq_none_iff.mp (by rw [address?, hy]; rfl) x hx)
    | some y =>
      have hsymm : Std.Symm fun x y : Text × Nat => ¬ Text.SameName x.1 y.1 :=
        ⟨fun _ _ hxy hyx => hxy hyx.symm⟩
      have hyx : y = x := by
        by_contra hne
        exact h.forall (List.mem_of_find?_eq_some hy) hx hne ((found hy).trans hname.symm)
      rw [address?, hy, hyx]
      rfl

/-- An entry with a new name keeps the names distinct. -/
theorem Distinct.concat (h : ls.Distinct) (hname : ls.address? name = none) :
    (Labels.mk (ls.entries ++ [(name, k)])).Distinct := by
  refine List.pairwise_append.mpr ⟨h, List.pairwise_singleton _ _, fun x hx y hy => ?_⟩
  rw [List.mem_singleton.mp hy]
  exact address?_eq_none_iff.mp hname x hx

/-! ### The table as a map -/

theorem put_eq_append {entries : List (Text × Nat)} (h : ∀ x ∈ entries, x.1 ≠ name) :
    put name k entries = entries ++ [(name, k)] := by
  induction entries with
  | nil => rfl
  | cons x entries ih =>
    rw [put, if_neg (h x (List.mem_cons_self ..)),
      ih fun y hy => h y (List.mem_cons_of_mem x hy), List.cons_append]

/-- **No entry gets lost in the map.** Names that are distinct up to case are distinct as they are
written. -/
theorem Distinct.toMap_eq_entries (h : ls.Distinct) : ls.toMap = ls.entries := by
  obtain ⟨entries⟩ := ls
  rw [toMap]
  change entries.Pairwise _ at h
  induction entries using List.reverseRecOn with
  | nil => rfl
  | append_singleton entries x ih =>
    obtain ⟨hentries, -, hx⟩ := List.pairwise_append.mp h
    rw [List.foldl_append, ih hentries]
    refine put_eq_append fun y hy hxy => ?_
    refine hx y hy x (List.mem_singleton.mpr rfl) ?_
    rw [hxy]
    exact .refl x.1

/-! ### Tables behind each other -/

/-- A name is looked up in the front table first. -/
theorem address?_append (xs ys : List (Text × Nat)) (name : Text) :
    (mk (xs ++ ys)).address? name = ((mk xs).address? name).or ((mk ys).address? name) := by
  rw [address?, List.find?_append, Option.map_or]
  rfl

/-- Moving the addresses up keeps the names where they are. -/
theorem address?_moved (xs : List (Text × Nat)) (k : Nat) (name : Text) :
    (mk (xs.map fun x => (x.1, x.2 + k))).address? name
      = ((mk xs).address? name).map (· + k) := by
  rw [address?, List.find?_map, Option.map_map, address?, Option.map_map]
  rfl

end Labels

end Octasm
