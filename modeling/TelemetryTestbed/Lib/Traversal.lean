import Mathlib.Data.List.Forall2

/-!
# A partial function over a list

What `List.mapM` is for a function that may fail: it fails if one of the elements does
(`mapM_isSome`), and otherwise the results stand beside the elements they were made of
(`mapM_eq_some_iff`). Where each element has a known result the list of them is the whole
result (`mapM_eq_some_map`).

Which element fails first makes no difference, since a failure says nothing about itself. A
program whose failures are told apart has its own rules.
-/

namespace TelemetryTestbed.Lib

variable {α β : Type*} {f : α → Option β} {l : List α}

theorem mapM_eq_some_iff {l' : List β} :
    l.mapM f = some l' ↔ List.Forall₂ (fun x y => f x = some y) l l' := by
  induction l generalizing l' with
  | nil =>
    rw [List.forall₂_nil_left_iff]
    exact ⟨fun h => (Option.some.inj h).symm, fun h => congrArg some h.symm⟩
  | cons x l ih =>
    rw [List.mapM_cons, List.forall₂_cons_left_iff]
    constructor
    · intro h
      obtain ⟨y, hy, h⟩ := Option.bind_eq_some_iff.mp h
      obtain ⟨ys, hys, h⟩ := Option.bind_eq_some_iff.mp h
      exact ⟨y, ys, hy, ih.mp hys, (Option.some.inj h).symm⟩
    · rintro ⟨y, ys, hy, hys, rfl⟩
      rw [hy, ih.mpr hys]
      rfl

/-- The whole list has a result exactly if every element of it has one. -/
theorem mapM_isSome : (l.mapM f).isSome ↔ ∀ x ∈ l, (f x).isSome := by
  induction l with
  | nil => exact iff_of_true rfl (List.forall_mem_nil _)
  | cons x l ih =>
    rw [List.mapM_cons, List.forall_mem_cons, ← ih]
    cases f x with
    | none => simp
    | some y => cases l.mapM f <;> simp

theorem mapM_eq_some_map {g : α → β} (h : ∀ x ∈ l, f x = some (g x)) :
    l.mapM f = some (l.map g) :=
  mapM_eq_some_iff.mpr (List.forall₂_map_right_iff.mpr (List.forall₂_same.mpr h))

end TelemetryTestbed.Lib
