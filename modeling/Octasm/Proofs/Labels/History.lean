import Octasm.Proofs.Labels
import Octasm.Proofs.Text.Character

/-!
# What a label table remembers

A table is made by requests: names are declared, some of them in vain, and looked up in between. The
history of a table is the list of the declarations that succeeded, as they were made. `Labels.Keeps`
says how every further request is answered, in terms of the history alone, and any requests leave a
table that keeps the history of these requests.

Three comparisons of names meet here. Entries are found by the name in capitals, registers are
compared by themselves, and in the map at the end names are keys as they are written. The first two
are the same comparison letter by letter, in which nothing but the letters from `A` to `Z` has two
cases. The third is finer, so the map has an entry for every declaration.

## Main definitions

* `Labels.Request`, `Labels.serve`: one request to a table, with its answer
* `Labels.run`, `Labels.history`: any requests, and the declarations among them that succeed
* `Labels.Keeps`: a table and its history

## Main results

* `Labels.entries_serve`, `Labels.entries_run`: what one request adds, and what all of them add
* `Labels.keeps_entries`: a table with distinct names keeps its entries
* `Labels.keeps_run`: any requests
-/

namespace Octasm

/-- A text names no register if it has the letters of none. -/
theorem Register.ofText?_eq_none_iff {t : Text} :
    ofText? t = none ↔ ∀ r : Register, ¬ List.Forall₂ Text.SameLetter t r.name := by
  -- registers are compared with the text in capitals, and their names are in capitals already
  have hcapitals : ∀ r : Register, r.name.upper = r.name := by
    intro r
    cases r <;> decide
  rw [Option.eq_none_iff_forall_ne_some]
  refine forall_congr' fun r => ?_
  rw [ne_eq, ofText?_eq_some_iff, ← Text.sameName_iff, Text.SameName, hcapitals]

namespace Labels

/-! ### Requests -/

/-- What can be asked of a table. -/
inductive Request
  | declare (name : Text) (address : Nat)
  | find (name : Text)

/-- What a table answers. -/
inductive Answer
  | declared
  | refused (f : Fault)
  | found (address : Option Nat)

/-- One request: the table afterwards, and the answer. -/
def serve (ls : Labels) : Request → Labels × Answer
  | .declare name address =>
    match ls.declare name address with
    | .ok ls' => (ls', .declared)
    | .error f => (ls, .refused f)
  | .find name => (ls, .found (ls.address? name))

/-- The table after some requests. -/
def run (ls : Labels) : List Request → Labels
  | [] => ls
  | r :: requests => run (ls.serve r).1 requests

/-- The declaration that a request is, if it succeeds. -/
def Request.success? (r : Request) : Answer → Option (Text × Nat)
  | .declared =>
    match r with
    | .declare name address => some (name, address)
    | .find _ => none
  | _ => none

/-- The declarations that succeed, in the order in which they are made. -/
def history (ls : Labels) : List Request → List (Text × Nat)
  | [] => []
  | r :: requests => (r.success? (ls.serve r).2).toList ++ history (ls.serve r).1 requests

variable {ls : Labels}

/-! ### What requests add -/

/-- **One request** adds the declaration that succeeds. -/
theorem entries_serve (ls : Labels) (r : Request) :
    (ls.serve r).1.entries = ls.entries ++ (r.success? (ls.serve r).2).toList := by
  cases r with
  | find name => exact (List.append_nil _).symm
  | declare name k =>
    rw [serve]
    cases h : ls.declare name k with
    | error f => exact (List.append_nil _).symm
    | ok ls' =>
      obtain ⟨-, rfl⟩ := declare_eq_ok_iff.mp h
      rfl

/-- **Any requests** add the declarations that succeed. -/
theorem entries_run (ls : Labels) (requests : List Request) :
    (ls.run requests).entries = ls.entries ++ ls.history requests := by
  induction requests generalizing ls with
  | nil => exact (List.append_nil _).symm
  | cons r requests ih => rw [run, ih, entries_serve, history, List.append_assoc]

/-- One request leaves the names distinct. -/
theorem Distinct.serve (h : ls.Distinct) (r : Request) : (ls.serve r).1.Distinct := by
  cases r with
  | find name => exact h
  | declare name k =>
    rw [Labels.serve]
    cases hd : ls.declare name k with
    | error f => exact h
    | ok ls' =>
      obtain ⟨⟨hnew, -⟩, rfl⟩ := declare_eq_ok_iff.mp hd
      exact h.concat hnew

theorem Distinct.run (h : ls.Distinct) (requests : List Request) :
    (ls.run requests).Distinct := by
  induction requests generalizing ls with
  | nil => exact h
  | cons r requests ih => exact ih (h.serve r)

/-! ### What requests are answered -/

theorem serve_declare_eq_declared_iff {name : Text} {k : Nat} :
    (ls.serve (.declare name k)).2 = .declared ↔
      ls.address? name = none ∧ Register.ofText? name = none := by
  rw [serve]
  cases hd : ls.declare name k with
  | ok ls' => exact iff_of_true rfl (declare_eq_ok_iff.mp hd).1
  | error f =>
    refine iff_of_false nofun fun h => ?_
    rw [declare_eq_ok_iff.mpr ⟨h, rfl⟩] at hd
    cases hd

/-- A declaration that is refused leaves the table alone. -/
theorem serve_declare_of_ne {name : Text} {k : Nat}
    (h : (ls.serve (.declare name k)).2 ≠ .declared) : (ls.serve (.declare name k)).1 = ls := by
  rw [serve] at h ⊢
  cases hd : ls.declare name k with
  | ok ls' =>
    rw [hd] at h
    exact absurd rfl h
  | error f => rfl

/-- A table and its history: how requests are answered after the declarations in `log`, and what the
table has become by them. -/
structure Keeps (ls : Labels) (log : List (Text × Nat)) : Prop where
  /-- A declaration succeeds if the name is not that of a register and not declared yet, with its
  letters in either case. -/
  declared : ∀ name k, (ls.serve (.declare name k)).2 = .declared ↔
    (∀ r : Register, ¬ List.Forall₂ Text.SameLetter name r.name) ∧
      ∀ x ∈ log, ¬ List.Forall₂ Text.SameLetter x.1 name
  refused : ∀ name k, (ls.serve (.declare name k)).2 ≠ .declared →
    (ls.serve (.declare name k)).1 = ls
  /-- A name is found where it was declared, with its letters in either case. -/
  found : ∀ x ∈ log, ∀ name, List.Forall₂ Text.SameLetter x.1 name →
    ls.serve (.find name) = (ls, .found (some x.2))
  missing : ∀ name, (∀ x ∈ log, ¬ List.Forall₂ Text.SameLetter x.1 name) →
    ls.serve (.find name) = (ls, .found none)
  unique : log.Pairwise fun x y => ¬ List.Forall₂ Text.SameLetter x.1 y.1
  size : ls.size = log.length
  /-- The map lists the declarations that succeeded, with the names as they are written. -/
  toMap : ls.toMap = log

/-- A table with distinct names keeps its entries. -/
theorem keeps_entries (h : ls.Distinct) : ls.Keeps ls.entries where
  declared name k := by
    rw [serve_declare_eq_declared_iff, and_comm, address?_eq_none_iff,
      Register.ofText?_eq_none_iff]
    simp only [Text.sameName_iff]
  refused _ _ := serve_declare_of_ne
  found x hx name hname := by
    have hfound := (address?_eq_some_iff h).mpr ⟨x, hx, Text.sameName_iff.mpr hname, rfl⟩
    rw [serve, hfound]
  missing name hname := by
    simp only [← Text.sameName_iff] at hname
    rw [serve, address?_eq_none_iff.mpr hname]
  unique := by
    simp only [← Text.sameName_iff]
    exact h
  size := rfl
  toMap := h.toMap_eq_entries

/-- **A table keeps its history.** Whatever requests have been made of a new table, every further
declaration and every search is answered by the declarations that have succeeded so far, and the map
lists these one by one. -/
theorem keeps_run (requests : List Request) :
    Keeps (empty.run requests) (empty.history requests) := by
  have h := keeps_entries (distinct_empty.run requests)
  rw [entries_run] at h
  exact h

example : (empty.run [.declare ['É'] 1, .declare ['x'] 2, .declare ['é'] 3, .declare ['X'] 4]).toMap
    = [(['É'], 1), (['x'], 2), (['é'], 3)] := by
  decide

end Labels

end Octasm
