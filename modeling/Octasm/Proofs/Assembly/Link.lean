import Octasm.Assembly
import Octasm.Proofs.Fallible

/-!
# Linking

A reference is resolved against the finished label table, by itself: what becomes of a slot does not
depend on the slots around it. So linking succeeds if every slot does, and else it fails with the
fault of the first slot that fails.

## Main results

* `Assembly.resolve_eq_ok_iff`, `Assembly.resolve_eq_error_iff`: one slot
* `Assembly.link_eq_ok_iff`, `Assembly.link_eq_error_iff`: all of the code
-/

namespace Octasm

namespace Assembly

variable {labels : Labels} {s : Slot} {b : UInt8} {f : Fault} {a : Assembly} {p : Program}

/-! ### One slot -/

/-- A byte stays as it is, and a reference becomes the address of its label. -/
theorem resolve_eq_ok_iff :
    resolve labels s = .ok b ↔ s = .byte b ∨
      ∃ name k, s = .label name ∧ labels.address? name = some k ∧ k ≤ 255 ∧ b = UInt8.ofNat k := by
  cases s with
  | byte c => simp [resolve]
  | label name =>
    cases hk : labels.address? name with
    | none => simp [resolve, hk]
    | some k =>
      by_cases hle : k ≤ 255
      · simp [resolve, hk, hle, eq_comm]
      · simp [resolve, hk, hle]

/-- A reference fails if its label is missing or out of reach. -/
theorem resolve_eq_error_iff :
    resolve labels s = .error f ↔
      ∃ name, s = .label name ∧
        ((labels.address? name = none ∧ f = .undefinedLabel name) ∨
          ∃ k, labels.address? name = some k ∧ 255 < k ∧ f = .labelOutOfRange name k) := by
  cases s with
  | byte c => simp [resolve]
  | label name =>
    cases hk : labels.address? name with
    | none => simp [resolve, hk, eq_comm]
    | some k =>
      by_cases hle : k ≤ 255
      · simp [resolve, hk, hle, Nat.not_lt.mpr hle]
      · simp [resolve, hk, hle, eq_comm, Nat.lt_of_not_le hle]

/-! ### All of the code -/

theorem link_eq_ok_iff :
    a.link = .ok p ↔ List.Forall₂ (fun s b => resolve a.labels s = .ok b) a.code p.code ∧
      p.sourceMap = a.sourceMap ∧ p.labels = a.labels.toMap ∧ p.spans = a.spans := by
  rw [link, Fallible.bind_eq_ok_iff]
  constructor
  · rintro ⟨code, hcode, hp⟩
    obtain rfl := Except.ok.inj hp
    exact ⟨Fallible.mapM_eq_ok_iff.mp hcode, rfl, rfl, rfl⟩
  · rintro ⟨hcode, hmap, hlabels, hspans⟩
    refine ⟨p.code, Fallible.mapM_eq_ok_iff.mpr hcode, ?_⟩
    rw [← hmap, ← hlabels, ← hspans]

/-- Linking fails with the first slot that fails. -/
theorem link_eq_error_iff :
    a.link = .error f ↔
      ∃ before s after, a.code = before ++ s :: after ∧ resolve a.labels s = .error f ∧
        ∀ t ∈ before, ∃ b, resolve a.labels t = .ok b := by
  rw [link, Fallible.bind_eq_error_iff, ← Fallible.mapM_eq_error_iff]
  exact or_iff_left fun ⟨_, _, h⟩ => by cases h

end Assembly

end Octasm
